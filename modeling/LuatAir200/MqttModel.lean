import LuatAir200.MqttDup
import LuatAir200.MqttPacket
import LuatAir200.SocketModel

/-!
# MQTT clients

`mqtt.lua` over the sockets and over `mqttdup.lua`. A client is a table that the
application may keep, so clients are numbered in the order of their creation and
`tclients` has numbers. Calls of the application come at any time, also from inside its
callbacks; a callback is known by the place in the history of the call that passed it.
An error of Lua and `sys.restart` end the run. The other sockets use the indexes 1 to 3.
-/
namespace LuatAir200.MqttClients
open Lua Mqtt

def RECONN_MAX_CNT : ℕ := 3
def RECONN_CYCLE_MAX_CNT : ℕ := 3

/-- The causes of `socket.disconnect` are numbers in the model of the sockets. -/
def USER : ℕ := 2

/-- The last index of a socket that `mqtt.lua` leaves to others. -/
def OTHER_MAX : ℕ := 3

/-- `gb2312toutf8` and `utf8togb2312`. -/
structure Conv where
  gb2312toutf8 : LuaString → LuaString
  utf8togb2312 : LuaString → LuaString

/-- The functions that run as timers, each for a socket index. -/
inductive TimerFnc
  | reconn | pingreq | disconnect | datinactive
deriving DecidableEq

/-- The parameters that an item is sent with; the answer to a `PUBLISH` has none. -/
inductive Para
  | none
  | MQTTCONN (val : LuaString)
  | MQTTPINGREQ
  | MQTTDISC
  | MQTTPUB (val : Publish) (qos : ℕ) (usertag : Option LuaString) (ackcb : Option ℕ)
  | MQTTSUB (val : Subscribe) (usertag : Option LuaString) (ackcb : Option ℕ)
  | MQTTDUP

structure Client where
  prot : LuaString
  host : LuaString
  port : LuaString
  sckidx : ℕ
  sckconning : Bool
  sckconnected : Bool
  sckreconncnt : ℕ
  sckreconncyclecnt : ℕ
  sckrcvs : LuaString
  mqttconnected : Bool
  mqttver : LuaString
  discing : Bool
  clientid : Option LuaString
  keepalive : Option ℕ
  user : Option LuaString
  password : Option LuaString
  will : Will
  connectedcb : Option ℕ
  connecterrcb : Option ℕ
  sckerrcb : Option ℕ
  discb : Option ℕ
  destroycb : Option ℕ
  /-- `evtcbs["MESSAGE"]`. -/
  message : Option ℕ

/-- What is left to do when a callback returns; `k` is a place in `tclients`. -/
inductive Frame
  /-- `ntfy` after `discb`. -/
  | discb (k : ℕ)
  /-- The loop of `rcv` after a packet. -/
  | rcv (idx k : ℕ) (active : Bool)
deriving DecidableEq

/-- The calls of the application, the calls of `socket.connect`, and the callbacks. -/
inductive Event
  | publish (r : ℕ) (qos : ℕ) (ackcb : Bool)
  | subscribe (r : ℕ) (ackcb : Bool)
  | connect (r : ℕ)
  | disconnect (r : ℕ) (discb : Bool)
  | destroy (r : ℕ) (destroycb : Bool)
  | regevtcb (r : ℕ)
  | sckconnect (sckidx : ℕ)
  | connectedcb (n : ℕ)
  | connecterrcb (n : ℕ) (reason : Option ℕ)
  | sckerrcb (n : ℕ)
  | discb (n : ℕ)
  | destroycb (n : ℕ)
  | ackcb (n : ℕ) (usertag : Option LuaString) (suc : Bool)
  | message (n : ℕ) (topic payload : LuaString) (qos : ℕ)
deriving DecidableEq

structure State where
  sock : Sockets.State
  dup : MqttDup.State ℕ
  /-- The client tables; the first `count` of them exist. -/
  objs : ℕ → Client
  count : ℕ
  tclients : List ℕ
  seq : ℕ
  /-- The parameters of the items, which are known by their numbers. -/
  paras : List Para
  timers : TimerFnc → ℕ → Bool
  frame : Option Frame
  hist : List Event

/-- The fields of a new client. -/
def newClient (prot host port : LuaString) (sckidx : ℕ) (mqttver : LuaString) : Client where
  prot := prot
  host := host
  port := port
  sckidx := sckidx
  sckconning := false
  sckconnected := false
  sckreconncnt := 0
  sckreconncyclecnt := 0
  sckrcvs := []
  mqttconnected := false
  mqttver := mqttver
  discing := false
  clientid := none
  keepalive := none
  user := none
  password := none
  will := ⟨0, 0, 0, [], []⟩
  connectedcb := none
  connecterrcb := none
  sckerrcb := none
  discb := none
  destroycb := none
  message := none

def boot : State where
  sock := Sockets.boot
  dup := MqttDup.boot
  objs _ := newClient [] [] [] 0 []
  count := 0
  tclients := []
  seq := 1
  paras := []
  timers _ _ := false
  frame := none
  hist := []

/-! ## Primitives -/

def record (v : Event) (s : State) : State := { s with hist := s.hist ++ [v] }

/-- Call a callback of the application, when it is there. -/
def told (v : ℕ → Event) (cb : Option ℕ) (s : State) : State :=
  match cb with
  | some n => record (v n) s
  | none => s

def upd (r : ℕ) (f : Client → Client) (s : State) : State :=
  { s with objs := Function.update s.objs r (f (s.objs r)) }

def timer_start (f : TimerFnc) (idx : ℕ) (s : State) : State :=
  { s with timers := Function.update s.timers f (Function.update (s.timers f) idx true) }

def timer_stop (f : TimerFnc) (idx : ℕ) (s : State) : State :=
  { s with timers := Function.update s.timers f (Function.update (s.timers f) idx false) }

/-- `link.shut`. -/
def shut (s : State) : State := { s with sock := { s.sock with link := Links.shut s.sock.link } }

def ins (sckidx : ℕ) (typ dat : LuaString) (seq : Option LuaString) (cb : Option ℕ)
    (cbtag : Option LuaString) (s : State) : State :=
  { s with dup := MqttDup.ins sckidx typ dat seq cb cbtag s.dup }

def rmv (sckidx : ℕ) (typ dat seq : Option LuaString) (s : State) : State :=
  { s with dup := MqttDup.rmv sckidx typ dat seq s.dup }

def rmvall (sckidx : ℕ) (s : State) : State := { s with dup := MqttDup.rmvall sckidx s.dup }

def snd (sckidx : ℕ) (data : LuaString) (para : Para) (s : State) : State × Bool :=
  let r := Sockets.send sckidx data s.paras.length none false s.sock
  ({ s with sock := r.1, paras := s.paras ++ [para] }, r.2)

def sckdisconnect (sckidx : ℕ) (cause : Option ℕ) (s : State) : State :=
  { s with sock := (Sockets.disconnect sckidx cause s.sock).1 }

def sckclose (sckidx : ℕ) (s : State) : State :=
  { s with sock := (Sockets.close sckidx s.sock).1 }

def getseq (s : State) : State × LuaString :=
  let seq := (s.seq + 1) % 0xFFFF
  ({ s with seq := if seq = 0 then 1 else seq }, packH s.seq)

/-- The place of a client in `tclients`. -/
def getclient (sckidx : ℕ) (s : State) : Option ℕ :=
  s.tclients.findIdx? fun r => (s.objs r).sckidx = sckidx

/-- `tclients[getclient(sckidx)]`; without it the use of a field is an error. -/
def client (sckidx : ℕ) (s : State) : Option ℕ := (getclient sckidx s).bind (s.tclients[·]?)

/-! ## Packets that are sent -/

section
variable (conv : Conv)

def mqttconncb (sckidx : ℕ) (val : LuaString) (s : State) : State :=
  ins sckidx (lua "CONN") val none none none s

/-- The version alone does not change the packets that follow `CONNECT`. -/
def mqttsubcb (sckidx : ℕ) (val : Subscribe) (usertag : Option LuaString) (ackcb : Option ℕ)
    (s : State) : Option State :=
  (client sckidx s).map fun _ =>
    ins sckidx (lua "MQTTSUB") (packSubscribe conv.gb2312toutf8 val) (some val.seq) ackcb usertag s

def mqttpubcb (sckidx : ℕ) (result : Bool) (val : Publish) (qos : ℕ)
    (usertag : Option LuaString) (ackcb : Option ℕ) (s : State) : Option State :=
  if qos = 0 then some (told (.ackcb · usertag result) ackcb s)
  else if qos = 1 then
    (client sckidx s).map fun _ =>
      ins sckidx (lua "MQTTPUB") (packPublish conv.gb2312toutf8 val) (some val.seq) ackcb usertag s
  else some s

def mqttdiscb (sckidx : ℕ) (usertag : Option ℕ) (s : State) : Option State :=
  (client sckidx s).map fun r =>
    sckdisconnect sckidx usertag (upd r (fun c => { c with discing := true }) s)

def mqttconndata (sckidx : ℕ) (s : State) : Option LuaString :=
  (client sckidx s).bind fun r =>
    let c := s.objs r
    c.keepalive.map fun keepalive =>
      packConnect conv.gb2312toutf8 c.mqttver keepalive c.clientid c.will c.user c.password

inductive Pack
  | MQTTCONN | MQTTPINGREQ | MQTTDISC
deriving DecidableEq

/-- `mqttsnd`, which returns true. -/
def mqttsnd (sckidx : ℕ) (typ : Pack) (usrtag : Option ℕ) (s : State) : Option State :=
  match typ with
  | .MQTTCONN =>
      (mqttconndata conv sckidx s).map fun dat =>
        match snd sckidx dat (.MQTTCONN dat) (rmv sckidx (some (lua "CONN")) none none s) with
        | (s, true) => s
        | (s, false) => mqttconncb sckidx dat s
  | .MQTTPINGREQ =>
      (client sckidx s).map fun _ => (snd sckidx packPingreq .MQTTPINGREQ s).1
  | .MQTTDISC =>
      (client sckidx s).bind fun _ =>
        match snd sckidx packDisconnect .MQTTDISC s with
        | (s, true) => some s
        | (s, false) => mqttdiscb sckidx usrtag s

/-- The local function `disconnect`. -/
def disconnect (sckidx : ℕ) (usrtag : Option ℕ) (s : State) : Option State :=
  mqttsnd conv sckidx .MQTTDISC usrtag s

def pingreq (sckidx : ℕ) (s : State) : Option State :=
  (mqttsnd conv sckidx .MQTTPINGREQ none s).bind fun s =>
    if s.timers .disconnect sckidx then some s
    else
      (client sckidx s).bind fun r =>
        (s.objs r).keepalive.map fun _ => timer_start .disconnect sckidx s

/-! ## Connections -/

def connect (sckidx : ℕ) (prot host port : LuaString) (s : State) : Option State :=
  let s := record (.sckconnect sckidx)
    { s with sock := (Sockets.connect sckidx prot host port none s.sock).1 }
  (client sckidx s).map fun r => upd r (fun c => { c with sckconning := true }) s

/-- The loop of `reconn` over `tclients`. -/
def connectAll : List ℕ → State → Option State
  | [], s => some s
  | r :: rs, s =>
      let v := s.objs r
      (connect v.sckidx v.prot v.host v.port s).bind (connectAll rs)

def reconn (sckidx : ℕ) (s : State) : Option State :=
  (client sckidx s).bind fun r =>
    let c := s.objs r
    if c.sckconning then some s
    else if c.sckreconncnt < RECONN_MAX_CNT then
      connectAll s.tclients
        (shut (upd r (fun c => { c with sckreconncnt := c.sckreconncnt + 1 }) s))
    else
      let s := upd r (fun c => { c with
        sckreconncnt := 0, sckreconncyclecnt := c.sckreconncyclecnt + 1 }) s
      if RECONN_CYCLE_MAX_CNT ≤ c.sckreconncyclecnt + 1 then
        c.sckerrcb.map fun n =>
          record (.sckerrcb n) (upd r (fun c => { c with
            sckreconncnt := 0, sckreconncyclecnt := 0 }) s)
      else some (timer_start .reconn sckidx s)

def checkdatactive (sckidx : ℕ) (s : State) : Option State :=
  (client sckidx s).bind fun r =>
    (s.objs r).keepalive.map fun _ => timer_start .datinactive sckidx s

/-! ## Events of the sockets -/

/-- What `ntfy` does first when a connection has ended. -/
def ended (idx r : ℕ) (s : State) : State :=
  upd r (fun c => { c with sckconnected := false, mqttconnected := false, sckrcvs := [] })
    (rmvall idx (timer_stop .pingreq idx s))

/-- `discb` is called; `discing` is cleared when it returns. -/
def left (k r : ℕ) (s : State) : State :=
  match (s.objs r).discb with
  | some n => { record (.discb n) s with frame := some (.discb k) }
  | none => upd r (fun c => { c with discing := false }) s

/-- The event `SEND` of an item that has been sent. -/
def sent (idx : ℕ) (item : Sockets.Item) (s : State) : Option State :=
  match s.paras[item.para]? with
  | some (.MQTTPUB val qos usertag ackcb) => mqttpubcb conv idx true val qos usertag ackcb s
  | some (.MQTTSUB val usertag ackcb) => mqttsubcb conv idx val usertag ackcb s
  | some .MQTTDUP => some { s with dup := MqttDup.rsm idx item.data s.dup }
  | some (.MQTTCONN val) => some (mqttconncb idx val s)
  | some .MQTTDISC => mqttdiscb idx none s
  | some .MQTTPINGREQ | some .none | none => some s

def ntfy (c : Sockets.Call) (s : State) : Option State :=
  match c with
  | .connect idx result _ =>
      (client idx s).bind fun r =>
        let s := upd r (fun c => { c with sckconning := false }) s
        if result then
          mqttsnd conv idx .MQTTCONN none (timer_stop .reconn idx (upd r (fun c => { c with
            sckconnected := true, sckreconncnt := 0, sckreconncyclecnt := 0, sckrcvs := [] }) s))
        else some (timer_start .reconn idx s)
  | .send idx result item =>
      if result then item.elim (some s) fun item => sent conv idx item s else some (shut s)
  | .state idx val =>
      if val = lua "CLOSED" then
        (getclient idx s).bind fun k => (client idx s).bind fun r =>
          let s := ended idx r s
          if (s.objs r).discing then some (left k r s) else reconn idx s
      else if val = lua "SHUTED" then (client idx s).bind fun r => reconn idx (ended idx r s)
      else some (if (smatch val (lua "ERROR")).isSome then shut s else s)
  | .disconnect idx cause =>
      (getclient idx s).bind fun k => (client idx s).bind fun r =>
        let s := ended idx r s
        if cause = some USER then some (left k r s) else reconn idx s
  | .close idx =>
      (getclient idx s).bind fun k => (client idx s).map fun r =>
        let s := rmvall idx (timer_stop .pingreq idx s)
        told .destroycb (s.objs r).destroycb { s with tclients := s.tclients.eraseIdx k }

/-! ## Received packets -/

def connack (sckidx : ℕ) (packet : Packet) (s : State) : Option State :=
  (client sckidx s).map fun r =>
    if packet.suc then
      told .connectedcb (s.objs r).connectedcb (rmv sckidx (some (lua "CONN")) none none
        (upd r (fun c => { c with mqttconnected := true }) s))
    else told (.connecterrcb · packet.reason) (s.objs r).connecterrcb s

/-- `suback` and `puback`. -/
def ack (sckidx : ℕ) (packet : Packet) (s : State) : State :=
  let typ := MqttDup.getyp sckidx packet.seq s.dup
  let s := rmv sckidx none none (some packet.seq) s
  match typ with
  | some (_, cb, cbtag) => told (.ackcb · cbtag true) cb s
  | none => s

def svrpublish (sckidx : ℕ) (mqttpacket : Packet) (s : State) : Option State :=
  (client sckidx s).map fun r =>
    let s := if mqttpacket.qos = 1 then (snd sckidx (packPuback mqttpacket.seq) .none s).1 else s
    told (.message · (conv.utf8togb2312 mqttpacket.topic) mqttpacket.payload mqttpacket.qos)
      (s.objs r).message s

/-- `mqttcmds`. -/
def mqttcmds (packet : Packet) (sckidx : ℕ) (s : State) : Option State :=
  if packet.typ = CONNACK then connack sckidx packet s
  else if packet.typ = SUBACK ∨ packet.typ = PUBACK then some (ack sckidx packet s)
  else if packet.typ = PUBLISH then svrpublish conv sckidx packet s
  else some (timer_stop .disconnect sckidx s)

def handled (typ : ℕ) : Bool :=
  typ = CONNACK ∨ typ = SUBACK ∨ typ = PUBACK ∨ typ = PUBLISH ∨ typ = PINGRSP

/-- The loop of `rcv` up to the handler of the next packet. -/
def rcvloop (idx k : ℕ) (s : State) : Option State :=
  (s.tclients[k]?).bind fun r =>
    match nextpacket (s.objs r).sckrcvs with
    | none => some s
    | some (data, rest) =>
        let s := upd r (fun c => { c with sckrcvs := rest }) s
        match unpack data with
        | some packet =>
            if handled packet.typ then
              (mqttcmds conv packet idx s).map fun s => { s with
                frame := some (.rcv idx k (packet.typ ≠ CONNACK ∧ packet.typ ≠ SUBACK)) }
            else some { s with frame := some (.rcv idx k false) }
        | none => some { s with frame := some (.rcv idx k false) }

def rcv (idx : ℕ) (data : LuaString) (s : State) : Option State :=
  (getclient idx s).bind fun k => (client idx s).bind fun r =>
    (s.objs r).keepalive.bind fun _ =>
      rcvloop conv idx k
        (upd r (fun c => { c with sckrcvs := c.sckrcvs ++ data }) (timer_start .pingreq idx s))

/-- A callback has returned. -/
def resume (f : Frame) (s : State) : Option State :=
  match f with
  | .discb k => (s.tclients[k]?).map fun r => upd r (fun c => { c with discing := false }) s
  | .rcv idx k active =>
      if active then (checkdatactive idx s).bind (rcvloop conv idx k) else rcvloop conv idx k s

/-! ## Messages of `mqttdup.lua` -/

def mqttdupind (sckidx : ℕ) (dat : LuaString) (s : State) : State :=
  match snd sckidx dat .MQTTDUP s with
  | (s, true) => s
  | (s, false) => { s with dup := MqttDup.rsm sckidx dat s.dup }

/-- `procer`. -/
def procer (m : MqttDup.Msg ℕ) (s : State) : State :=
  match m with
  | .dupInd sckidx dat => mqttdupind sckidx dat s
  | .dupFail _ _ _ cb cbtag => told (.ackcb · cbtag false) cb s

/-! ## The interface -/

def create (prot host port : LuaString) (ver : Option LuaString) (s : State) : Option State :=
  if 2 ≤ s.tclients.length then none
  else
    let c := newClient prot host port (Sockets.SCK_MAX_CNT - s.tclients.length) (ver.getD (lua "3.1"))
    some { s with
      objs := Function.update s.objs s.count c
      count := s.count + 1
      tclients := s.tclients ++ [s.count] }

def tmqtt.change (r : ℕ) (prot host port : Option LuaString) (s : State) : State :=
  upd r (fun c => { c with
    prot := prot.getD c.prot, host := host.getD c.host, port := port.getD c.port }) s

/-- The number of the callback that the call to be recorded passes. -/
def callback (given : Bool) (s : State) : Option ℕ := if given then some s.hist.length else none

/-- The loop of `tmqtt:destroy` over `tclients`. -/
def closeAll (sckidx : ℕ) (s : State) : List ℕ → State
  | [] => s
  | v :: vs => closeAll sckidx (if (s.objs v).sckidx = sckidx then sckclose sckidx s else s) vs

def tmqtt.destroy (r : ℕ) (destroycb : Bool) (s : State) : State :=
  let s := record (.destroy r destroycb)
    (upd r (fun c => { c with destroycb := callback destroycb s }) s)
  closeAll (s.objs r).sckidx s s.tclients

def tmqtt.disconnect (r : ℕ) (discb : Bool) (s : State) : Option State :=
  let s := record (.disconnect r discb) (upd r (fun c => { c with discb := callback discb s }) s)
  MqttClients.disconnect conv (s.objs r).sckidx (some USER) s

def tmqtt.configwill (r : ℕ) (will : Will) (s : State) : State :=
  upd r (fun c => { c with will := will }) s

/-- The callbacks that a call of `tmqtt:connect` passes. -/
structure ConnectCbs where
  connectedcb : Bool
  connecterrcb : Bool
  sckerrcb : Bool
deriving DecidableEq

def tmqtt.connect (r : ℕ) (clientid : Option LuaString) (keepalive : Option ℕ)
    (user password : Option LuaString) (cbs : ConnectCbs) (s : State) : Option State :=
  let s := record (.connect r) (upd r (fun c => { c with
    clientid := clientid
    keepalive := some (keepalive.getD 600)
    user := some (user.getD [])
    password := some (password.getD [])
    connectedcb := callback cbs.connectedcb s
    connecterrcb := callback cbs.connecterrcb s
    sckerrcb := callback cbs.sckerrcb s }) s)
  let self := s.objs r
  (getclient self.sckidx s).bind fun k =>
    let s := { s with tclients := s.tclients.set k r }
    if self.mqttconnected then some s
    else if self.sckconnected then mqttsnd conv self.sckidx .MQTTCONN none s
    else (MqttClients.connect self.sckidx self.prot self.host self.port s).bind (checkdatactive self.sckidx)

def tmqtt.publish (r : ℕ) (topic payload : LuaString) (qos : Option ℕ) (ackcb : Bool)
    (usertag : Option LuaString) (s : State) : Option State :=
  let cb := callback ackcb s
  let s := record (.publish r (qos.getD 0) ackcb) s
  let self := s.objs r
  if !self.mqttconnected then some (told (.ackcb · usertag false) cb s)
  else if qos.getD 0 ≠ 0 ∧ qos.getD 0 ≠ 1 then none
  else
    let (s, seq) := getseq s
    let dat := packPublish conv.gb2312toutf8 ⟨false, topic, payload, qos.getD 0, seq⟩
    let para : Publish := ⟨true, topic, payload, qos.getD 0, seq⟩
    match snd self.sckidx dat (.MQTTPUB para (qos.getD 0) usertag cb) s with
    | (s, true) => some s
    | (s, false) => mqttpubcb conv self.sckidx false para (qos.getD 0) usertag cb s

def tmqtt.subscribe (r : ℕ) (topics : List (LuaString × ℕ)) (ackcb : Bool)
    (usertag : Option LuaString) (s : State) : Option State :=
  let cb := callback ackcb s
  let s := record (.subscribe r ackcb) s
  let self := s.objs r
  if !self.mqttconnected then some (told (.ackcb · usertag false) cb s)
  else if topics.any fun v => v.2 = 2 then none
  else
    let (s, seq) := getseq s
    let dat := packSubscribe conv.gb2312toutf8 ⟨false, topics, seq⟩
    let para : Subscribe := ⟨true, topics, seq⟩
    match snd self.sckidx dat (.MQTTSUB para usertag cb) s with
    | (s, true) => some s
    | (s, false) => mqttsubcb conv self.sckidx para usertag cb s

def tmqtt.regevtcb (r : ℕ) (message : Bool) (s : State) : State :=
  record (.regevtcb r) (upd r (fun c => { c with message := callback message s }) s)

/-! ## Runs -/

inductive Act
  | create (prot host port : LuaString) (ver : Option LuaString)
  | change (r : ℕ) (prot host port : Option LuaString)
  | destroy (r : ℕ) (destroycb : Bool)
  | disconnect (r : ℕ) (discb : Bool)
  | configwill (r : ℕ) (will : Will)
  | connect (r : ℕ) (clientid : Option LuaString) (keepalive : Option ℕ)
      (user password : Option LuaString) (cbs : ConnectCbs)
  | publish (r : ℕ) (topic payload : LuaString) (qos : Option ℕ) (ackcb : Bool)
      (usertag : Option LuaString)
  | subscribe (r : ℕ) (topics : List (LuaString × ℕ)) (ackcb : Bool) (usertag : Option LuaString)
  | regevtcb (r : ℕ) (message : Bool)
  /-- A timer has expired. -/
  | timer (f : TimerFnc) (idx : ℕ)
  | duptick
  /-- The next message of `mqttdup.lua` is processed. -/
  | dupmsg
  /-- The link of a socket has received data. -/
  | rcv (idx : ℕ) (data : LuaString)
  /-- A step of the other layers: calls of other modules and applications, and events. -/
  | sock (a : Sockets.Act)
  /-- A callback returns. -/
  | ret

/-- No callback is being run. -/
def idle (s : State) : Bool := s.frame.isNone ∧ s.sock.link.frame.isNone

/-- What other modules and applications do with the sockets. -/
def other : Sockets.Act → Bool
  | .create idx _ _ _ _ | .connect idx _ _ _ _ | .send idx _ _ _ _ | .disconnect idx _
  | .close idx | .setwaitingrspitem idx _ => 1 ≤ idx ∧ idx ≤ OTHER_MAX
  | .link _ => true
  | .ret => false

/-- What waits until the callbacks have returned. -/
def waits : Sockets.Act → Bool
  | .link (.respond _ _ _) | .link (.urc _) | .link .msg | .link (.proc _) | .link (.expire _) =>
      true
  | _ => false

def callidx : Sockets.Call → ℕ
  | .send idx _ _ | .connect idx _ _ | .disconnect idx _ | .close idx | .state idx _ => idx

/-- The call of `rsp` that a step of the sockets has made. -/
def newcall (s t : Sockets.State) : Option Sockets.Call := t.calls[s.calls.length]?

/-- `ntfy` is the `rsp` of the sockets that `mqtt.lua` has connected. -/
def serve (t : Sockets.State) (s : State) : Option State :=
  match newcall s.sock t with
  | some c => if OTHER_MAX < callidx c then ntfy conv c { s with sock := t }
      else some { s with sock := t }
  | none => some { s with sock := t }

/-- Socket `idx` has a link that can receive. -/
def receives (idx : ℕ) (s : State) : Bool :=
  OTHER_MAX < idx ∧ (((s.sock.scks idx).bind Sockets.Sock.id).bind s.sock.link.linklist).isSome

def expire (f : TimerFnc) (idx : ℕ) (s : State) : Option State :=
  match f with
  | .reconn => reconn idx s
  | .pingreq => pingreq conv idx s
  | .disconnect => disconnect conv idx none s
  | .datinactive => none

def step (s : State) : Act → Option State
  | .create prot host port ver => create prot host port ver s
  | .change r prot host port => if r < s.count then some (tmqtt.change r prot host port s) else none
  | .destroy r destroycb => if r < s.count then some (tmqtt.destroy r destroycb s) else none
  | .disconnect r discb => if r < s.count then tmqtt.disconnect conv r discb s else none
  | .configwill r will => if r < s.count then some (tmqtt.configwill r will s) else none
  | .connect r clientid keepalive user password cbs =>
      if r < s.count then tmqtt.connect conv r clientid keepalive user password cbs s else none
  | .publish r topic payload qos ackcb usertag =>
      if r < s.count then tmqtt.publish conv r topic payload qos ackcb usertag s else none
  | .subscribe r topics ackcb usertag =>
      if r < s.count then tmqtt.subscribe conv r topics ackcb usertag s else none
  | .regevtcb r message => if r < s.count then some (tmqtt.regevtcb r message s) else none
  | .timer f idx =>
      if idle s ∧ s.timers f idx then expire conv f idx (timer_stop f idx s) else none
  | .duptick =>
      if idle s then (MqttDup.step s.dup .tick).map fun d => { s with dup := d } else none
  | .dupmsg =>
      match idle s, s.dup.qmsg with
      | true, m :: ms => some (procer m { s with dup := { s.dup with qmsg := ms } })
      | _, _ => none
  | .rcv idx data => if idle s ∧ receives idx s then rcv conv idx data s else none
  | .sock a =>
      if other a ∧ (waits a → s.frame = none) then
        (Sockets.step s.sock a).bind fun t => serve conv t s
      else none
  | .ret =>
      match s.frame with
      | some f => resume conv f { s with frame := none }
      | none => (Sockets.step s.sock .ret).bind fun t => serve conv t s

end

end LuatAir200.MqttClients
