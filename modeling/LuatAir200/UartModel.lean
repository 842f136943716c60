import LuatAir200.CycleQueue
import LuatAir200.Machine

/-!
# Receive paths of the serial ports

`platform_uart.c`: what the modem or a serial line sends goes through a ring and a
staging buffer, from which the Lua side takes bytes one at a time. A receive message is
posted only when the ring was empty. The virtual AT port is filled by another task while
it is read; a physical port is filled in an interrupt, which its reader locks out.
-/
namespace LuatAir200.Uart
open Machine

/-! ## Staging -/

/-- A ring with the buffer that its reader fills from it. -/
structure Staged where
  rxqueue : CycleQueue UInt8
  readbuf : ℕ → UInt8
  readindex : ℕ
  readsize : ℕ

/-- The buffer after `data` has been copied to its start. -/
def fill (buf : ℕ → UInt8) (data : List UInt8) : ℕ → UInt8 :=
  fun i => (data[i]?).getD (buf i)

/-- Fill a buffer of `n` bytes from the ring; its size is a counter below `width`. -/
def refill (n width : ℕ) (s : Staged) : Staged :=
  let r := s.rxqueue.delete n
  { rxqueue := r.1, readbuf := fill s.readbuf r.2, readindex := 0,
    readsize := r.2.length % width }

/-- `readbuf[readindex++]`. -/
def take (width : ℕ) (s : Staged) : UInt8 × Staged :=
  (s.readbuf s.readindex, { s with readindex := (s.readindex + 1) % width })

def ring (size : ℕ) : CycleQueue UInt8 := ⟨fun _ => 0, size, 0, 0, true, false, false⟩

def staged (size : ℕ) : Staged := ⟨ring size, fun _ => 0, 0, 0⟩

/-! ## The virtual AT port -/

def VATC_RX_BUF_SIZE : ℕ := 8192
def VATC_READ_BUF_SIZE : ℕ := 512

/-- `queued` receive messages wait for the Lua task, and `posting` calls of
`RILAPI_ReceiveData` have done their insertion and are about to send theirs. Inside the
read loop of `atcreader`, `line` is what `uart_read` has read of the line so far. -/
structure Vatc where
  io : Staged
  queued : ℕ
  posting : ℕ
  line : Option (List UInt8)
  lines : List (List UInt8)
  received : List UInt8

def Vatc.init : Vatc := ⟨staged VATC_RX_BUF_SIZE, 0, 0, none, [], []⟩

/-- The part of `RILAPI_ReceiveData` that holds the semaphore. -/
def receiveData (data : List UInt8) (s : Vatc) : Vatc :=
  let needMsg := s.io.rxqueue.empty
  { s with
    io := { s.io with rxqueue := s.io.rxqueue.insert data }
    posting := if needMsg then s.posting + 1 else s.posting
    received := s.received ++ data }

/-- `uart_read` returns the line `l` to `atcreader`, which ends its loop on an empty one. -/
def endLine (l : List UInt8) (s : Vatc) : Vatc :=
  if l = [] then { s with line := none }
  else { s with line := some [], lines := s.lines ++ [l] }

/-- One step of `vatc_read` for one byte, under `uart_read(uart.ATC,"*l")`, of which `l` has
been read: a refill, or the byte out of the staging buffer. -/
def recv (l : List UInt8) (s : Vatc) : Vatc :=
  if s.io.readsize ≤ s.io.readindex then
    let io := refill VATC_READ_BUF_SIZE 65536 s.io
    if io.readsize = 0 then endLine l { s with io := io } else { s with io := io }
  else
    let (cres, io) := take 65536 s.io
    if cres = 10 then endLine (l ++ [cres]) { s with io := io }
    else { s with io := io, line := some (l ++ [cres]) }

inductive VatcAct
  | receive (data : List UInt8)
  /-- `sendUartMessage` of a call that found the ring empty. -/
  | post
  /-- The Lua task takes a receive message and starts `atcreader`. -/
  | wake
  | recv

def Vatc.step (s : Vatc) : VatcAct → Option Vatc
  | .receive data => some (receiveData data s)
  | .post =>
      if 0 < s.posting then some { s with posting := s.posting - 1, queued := s.queued + 1 }
      else none
  | .wake =>
      if 0 < s.queued ∧ s.line = none then
        some { s with queued := s.queued - 1, line := some [] }
      else none
  | .recv => s.line.map fun l => Uart.recv l s

/-! ## A physical port -/

def UART_RX_BUF_SIZE : ℕ := 1460
def RX_BUFFER_SIZE : ℕ := 256
def READ_BUFFER_SIZE : ℕ := 126

/-- A port with its context; `temprxbuff` is only used within one event. `posted` counts the
receive messages, `events` has for each event whether it found the ring empty and whether it
posted a message. -/
structure Phy where
  opened : Bool
  workmode : ℕ
  context : Staged
  posted : ℕ
  events : List (Bool × Bool)
  delivered : List UInt8
  returned : List UInt8

/-- A port that has been opened with a receive callback. -/
def Phy.init (workmode : ℕ) : Phy := ⟨true, workmode, staged UART_RX_BUF_SIZE, 0, [], [], []⟩

/-- `read_uart` gives the bytes `data`; their number goes through a `uint8`. -/
def uart_message_handle (data : List UInt8) (s : Phy) : Phy :=
  let length := data.length % 256
  let found := s.context.rxqueue.empty
  let needMsg := if length ≠ 0 then found else false
  let context :=
    if length ≠ 0 then
      { s.context with rxqueue := s.context.rxqueue.insert (data.take length) }
    else s.context
  { s with
    context := context
    posted := if needMsg then s.posted + 1 else s.posted
    events := s.events ++ [(found, needMsg)]
    delivered := s.delivered ++ data }

/-- The loop of `uart_phy_read`, which has `n` bytes left to read. -/
def readLoop : ℕ → Staged → List UInt8 × Staged
  | 0, s => ([], s)
  | n + 1, s =>
      if s.readsize ≤ s.readindex then
        let s := refill READ_BUFFER_SIZE 256 s
        if s.readsize = 0 then ([], s)
        else
          let (b, s) := take 256 s
          let (bs, s) := readLoop n s
          (b :: bs, s)
      else
        let (b, s) := take 256 s
        let (bs, s) := readLoop n s
        (b :: bs, s)

/-- `driver` is what `read_uart` would give to a port that is polled. -/
def uart_phy_read (length : ℕ) (driver : List UInt8) (s : Phy) : List UInt8 × Staged :=
  if !s.opened then ([], s.context)
  else if s.workmode = 1 then (driver.take length, s.context)
  else readLoop length s.context

inductive PhyAct
  | receive (data : List UInt8)
  | read (length : ℕ) (driver : List UInt8)

def Phy.step (s : Phy) : PhyAct → Option Phy
  | .receive data => some (uart_message_handle data s)
  | .read length driver =>
      let r := uart_phy_read length driver s
      some { s with context := r.2, returned := s.returned ++ r.1 }

end LuatAir200.Uart
