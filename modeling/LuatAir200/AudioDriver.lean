import LuatAir200.Machine
import Mathlib.Data.List.Infix
import Mathlib.Data.List.Nodup

/-!
# `platform_audio.c`: playing of sounds

A call runs one statement at a time, and the callback of a request that `play_music` has
accepted runs between any two of them, at most once and not after `stop_music` has returned.
There is memory for messages. History: the request that is played, the buffers in the order of
their allocation and those whose playback is over, and the completions.
-/
namespace LuatAir200.AudioDriver
open Machine

/-- `E_AMOPENAT_PLAY_ERROR`. -/
inductive PlayError
  | NO | UNKNOWN_FORMAT | BUSY | INVALID_PARAMETER | ACTION_NOT_ALLOWED | OUT_OF_MEMORY
  | CANNOT_OPEN_FILE | END_OF_FILE | TERMINATED | BAD_FORMAT | INVALID_FORMAT | ERROR
  deriving DecidableEq

inductive PlayMode
  | AMR122 | MP3 | PCM | WAV | MIDI
  deriving DecidableEq

inductive FileFormat
  | MP3 | AMR | MIDI
  deriving DecidableEq

/-- `AudioPlayParam`; the format of a buffer may be any number. -/
inductive Param
  | buffer (data : List UInt8) (format : ℕ)
  | file (filename : List Char)
  deriving DecidableEq

/-- `T_AMOPENAT_PLAY_PARAM`, with the number of the buffer. -/
inductive Request
  | buffer (b : ℕ) (data : List UInt8) (format : PlayMode)
  | file (format : FileFormat) (name : List Char)
  deriving DecidableEq

def Request.pBuffer : Request → Option ℕ
  | .buffer b _ _ => some b
  | .file _ _ => none

/-- The data of a message `RTOS_MSG_AUDIO`. -/
structure AudioData where
  playEndInd : Bool
  playErrorInd : Bool
  deriving DecidableEq

/-- A call of `platform_free`, and whether the playback of the buffer was over. -/
structure Release where
  buffer : ℕ
  ended : Bool
  deriving DecidableEq

/-- The statement that comes next, in `platform_audio_play` up to `accepted` and in
`platform_audio_stop` from `stop` on. -/
inductive Pc
  | idle
  | playing (param : Param)
  | unfreed (data : List UInt8) (format : ℕ)
  | dataFormat (data : List UInt8) (format : ℕ)
  | malloc (data : List UInt8) (mode : PlayMode)
  | allocated (data : List UInt8) (mode : PlayMode)
  | memcpy (data : List UInt8) (mode : PlayMode)
  | nameLength (filename : List Char)
  | fileFormat (filename : List Char)
  | music (request : Request)
  | refused
  | refusedNull
  | accepted
  | stop
  | stopMusic
  | stopFree
  | stopNull
  | stopFlag
  deriving DecidableEq

structure State where
  pc : Pc
  isPlaying : Bool
  audplaybuffer : Option ℕ
  /-- The last call has returned `PLATFORM_OK`. -/
  ok : Bool
  /-- The messages that were sent. -/
  posts : List AudioData
  /-- The number of the next buffer. -/
  next : ℕ
  released : List Release
  /-- The request that has neither completed nor been stopped. -/
  live : Option Request
  ended : List ℕ
  done : List PlayError
  deriving DecidableEq

def loaded : State where
  pc := .idle
  isPlaying := false
  audplaybuffer := none
  ok := true
  posts := []
  next := 0
  released := []
  live := none
  ended := []
  done := []

/-- What a task does next; `ok` answers `platform_malloc` and `play_music`. -/
inductive Act
  | play (param : Param)
  | stop
  | next (ok : Bool)
  | callback (result : PlayError)
  deriving DecidableEq

def getFileFormat (filename : List Char) : Option FileFormat :=
  if ".amr".toList <:+: filename ∨ ".AMR".toList <:+: filename then some .AMR
  else if ".mp3".toList <:+: filename ∨ ".MP3".toList <:+: filename then some .MP3
  else if ".mid".toList <:+: filename ∨ ".MID".toList <:+: filename then some .MIDI
  else none

def getDataFormat (audFormat : ℕ) : Option PlayMode :=
  [PlayMode.AMR122, .MP3, .PCM, .WAV, .MIDI][audFormat]?

def audioData (result : PlayError) : AudioData :=
  if result = .NO ∨ result = .END_OF_FILE then ⟨true, false⟩ else ⟨false, true⟩

namespace State

/-- The playback has completed or was stopped. -/
def finish (s : State) : State :=
  { s with live := none, ended := s.ended ++ (s.live.bind Request.pBuffer).toList }

def platform_free (b : ℕ) (s : State) : State :=
  { s with released := s.released ++ [⟨b, b ∈ s.ended⟩] }

def audio_play_callback (result : PlayError) (s : State) : State :=
  let s := { s.finish with done := s.done ++ [result] }
  let s := match s.audplaybuffer with
    | some b => { s.platform_free b with audplaybuffer := none }
    | none => s
  { s with isPlaying := false, posts := s.posts ++ [audioData result] }

def ret (ok : Bool) (s : State) : State := { s with pc := .idle, ok := ok }

/-- One statement of the call in progress. -/
def exec (ok : Bool) (s : State) : Option State :=
  match s.pc with
  | .idle => none
  | .playing param =>
      if s.isPlaying then some (s.ret false)
      else match param with
        | .buffer data format => some { s with pc := .unfreed data format }
        | .file filename => some { s with pc := .nameLength filename }
  | .unfreed data format =>
      if s.audplaybuffer.isSome then some (s.ret false)
      else some { s with pc := .dataFormat data format }
  | .dataFormat data format =>
      match getDataFormat format with
      | none => some (s.ret false)
      | some mode => some { s with pc := .malloc data mode }
  | .malloc data mode =>
      if ok then
        some { s with audplaybuffer := some s.next, next := s.next + 1, pc := .allocated data mode }
      else some { s with audplaybuffer := none, pc := .allocated data mode }
  | .allocated data mode =>
      match s.audplaybuffer with
      | none => some (s.ret false)
      | some _ => some { s with pc := .memcpy data mode }
  | .memcpy data mode =>
      s.audplaybuffer.map fun b => { s with pc := .music (.buffer b data mode) }
  | .nameLength filename =>
      if filename.length > 99 then some (s.ret false)
      else some { s with pc := .fileFormat filename }
  | .fileFormat filename =>
      match getFileFormat filename with
      | none => some (s.ret false)
      | some format => some { s with pc := .music (.file format filename) }
  | .music request =>
      if ok then some { s with live := some request, pc := .accepted }
      else some { s with ended := s.ended ++ request.pBuffer.toList, pc := .refused }
  | .refused =>
      match s.audplaybuffer with
      | some b => some { s.platform_free b with pc := .refusedNull }
      | none => some (s.ret false)
  | .refusedNull => some ({ s with audplaybuffer := none }.ret false)
  | .accepted => some ({ s with isPlaying := true }.ret true)
  | .stop =>
      if s.isPlaying then some { s with pc := .stopMusic } else some (s.ret true)
  | .stopMusic => some { s.finish with pc := .stopFree }
  | .stopFree =>
      match s.audplaybuffer with
      | some b => some { s.platform_free b with pc := .stopNull }
      | none => some { s with pc := .stopFlag }
  | .stopNull => some { s with audplaybuffer := none, pc := .stopFlag }
  | .stopFlag => some ({ s with isPlaying := false }.ret true)

end State

def step (s : State) : Act → Option State
  | .play param => if s.pc = .idle then some { s with pc := .playing param } else none
  | .stop => if s.pc = .idle then some { s with pc := .stop } else none
  | .next ok => s.exec ok
  | .callback result =>
      if s.live.isSome then some (s.audio_play_callback result) else none

/-- The message for a completion: its end flag or its error flag is set. -/
structure Tells (result : PlayError) (m : AudioData) : Prop where
  ended : m.playEndInd ↔ result = .NO ∨ result = .END_OF_FILE
  failed : m.playErrorInd ↔ ¬ (result = .NO ∨ result = .END_OF_FILE)

/-- What holds in each state; no call is in progress when `pc` is `idle`. -/
structure Right (s : State) : Prop where
  flag : s.pc = .idle → (s.isPlaying ↔ s.live.isSome)
  once : (s.released.map Release.buffer).Nodup
  late : ∀ r ∈ s.released, r.ended
  all : s.pc = .idle → ∀ b < s.next,
    b ∈ s.released.map Release.buffer ∨ s.live.bind Request.pBuffer = some b
  posts : List.Forall₂ Tells s.done s.posts

/-- The request has not completed before `isPlaying` is set for it. -/
def Keeps (s : State) : Act → Prop
  | .next _ => s.pc = .accepted → s.live.isSome
  | .play _ | .stop | .callback _ => True

/-! ## The buffers -/

/-- Of the buffers below `n` all but the one in use have been released, each once and late
enough. -/
structure Books (released : List Release) (n : ℕ) (used : Option ℕ) : Prop where
  below : ∀ r ∈ released, r.buffer < n
  once : (released.map Release.buffer).Nodup
  late : ∀ r ∈ released, r.ended
  used_below : ∀ b, used = some b → b < n
  used_held : ∀ b, used = some b → b ∉ released.map Release.buffer
  all : ∀ b < n, b ∈ released.map Release.buffer ∨ used = some b

theorem Books.malloc {l : List Release} {n : ℕ} (h : Books l n none) :
    Books l (n + 1) (some n) where
  below r hr := Nat.lt_succ_of_lt (h.below r hr)
  once := h.once
  late := h.late
  used_below b hb := by
    cases hb
    exact Nat.lt_succ_self n
  used_held b hb hm := by
    cases hb
    obtain ⟨r, hr, rfl⟩ := List.mem_map.mp hm
    exact Nat.lt_irrefl _ (h.below r hr)
  all b hb := by
    rcases Nat.lt_succ_iff_lt_or_eq.mp hb with hlt | rfl
    · exact .inl ((h.all b hlt).resolve_right nofun)
    · exact .inr rfl

theorem Books.free {l : List Release} {n b : ℕ} (h : Books l n (some b)) {ended : Bool}
    (hover : ended) : Books (l ++ [⟨b, ended⟩]) n none where
  below r hr := by
    rcases List.mem_append.mp hr with hr | hr
    · exact h.below r hr
    · obtain rfl := List.mem_singleton.mp hr
      exact h.used_below b rfl
  once := by
    rw [List.map_append]
    refine List.nodup_append.mpr ⟨h.once, List.nodup_singleton _, ?_⟩
    rintro x hx y hy rfl
    obtain rfl := List.mem_singleton.mp hy
    exact h.used_held _ rfl hx
  late r hr := by
    rcases List.mem_append.mp hr with hr | hr
    · exact h.late r hr
    · obtain rfl := List.mem_singleton.mp hr
      exact hover
  used_below := nofun
  used_held := nofun
  all c hc := by
    refine .inl ?_
    rw [List.map_append, List.mem_append]
    refine (h.all c hc).imp_right fun hb => ?_
    cases hb
    exact List.mem_singleton_self b

/-- Behind `platform_free` the pointer is still set. -/
def State.used (s : State) : Option ℕ :=
  match s.pc with
  | .refusedNull | .stopNull => none
  | _ => s.audplaybuffer

/-- What holds of the variables in front of each statement. -/
def At (s : State) : Prop :=
  match s.pc with
  | .idle | .playing _ | .stop =>
      (s.isPlaying ↔ s.live.isSome) ∧ s.audplaybuffer = s.live.bind Request.pBuffer
  | .unfreed .. | .dataFormat .. | .malloc .. | .nameLength _ | .fileFormat _ =>
      s.isPlaying = false ∧ s.live = none ∧ s.audplaybuffer = none
  | .allocated .. | .memcpy .. | .refusedNull => s.isPlaying = false ∧ s.live = none
  | .music request =>
      s.isPlaying = false ∧ s.live = none ∧ s.audplaybuffer = request.pBuffer
  | .refused =>
      s.isPlaying = false ∧ s.live = none ∧ ∀ b, s.audplaybuffer = some b → b ∈ s.ended
  | .accepted => s.isPlaying = false ∧ s.audplaybuffer = s.live.bind Request.pBuffer
  | .stopMusic => s.audplaybuffer = s.live.bind Request.pBuffer
  | .stopFree => s.live = none ∧ ∀ b, s.audplaybuffer = some b → b ∈ s.ended
  | .stopNull => s.live = none
  | .stopFlag => s.live = none ∧ s.audplaybuffer = none

structure Inv (s : State) : Prop where
  here : At s
  books : Books s.released s.next s.used
  posts : List.Forall₂ Tells s.done s.posts

theorem Inv.right {s : State} (h : Inv s) : Right s where
  flag hi := by
    have hh := h.here
    rw [At, hi] at hh
    exact hh.1
  once := h.books.once
  late := h.books.late
  all hi b hb := by
    have hh := h.here
    rw [At, hi] at hh
    have hu := h.books.all b hb
    rw [State.used, hi] at hu
    rw [← hh.2]
    exact hu
  posts := h.posts

theorem loaded_inv : Inv loaded :=
  ⟨⟨by decide, rfl⟩, ⟨nofun, List.nodup_nil, nofun, nofun, nofun, nofun⟩, .nil⟩

theorem audioData_tells (result : PlayError) : Tells result (audioData result) := by
  unfold audioData
  split
  · next h => exact ⟨iff_of_true rfl h, iff_of_false nofun (not_not_intro h)⟩
  · next h => exact ⟨iff_of_false nofun h, iff_of_true rfl h⟩

/-! ## The callback -/

/-- Where a request can be live, the pointer is its buffer's, and the variables may be cleared. -/
theorem At.live {s : State} (h : At s) (hl : s.live.isSome) :
    s.audplaybuffer = s.live.bind Request.pBuffer ∧ s.used = s.audplaybuffer ∧
      ∀ t : State, t.pc = s.pc → t.isPlaying = false → t.live = none → t.audplaybuffer = none →
        At t := by
  have hn : s.live ≠ none := Option.isSome_iff_ne_none.mp hl
  cases hp : s.pc <;> simp only [At, hp] at h <;> simp only [State.used, hp]
  case idle | playing | stop =>
    refine ⟨h.2, trivial, fun t ht hf hv hb => ?_⟩
    simp [At, ht, hf, hv, hb]
  case accepted =>
    refine ⟨h.2, trivial, fun t ht hf hv hb => ?_⟩
    simp [At, ht, hf, hv, hb]
  case stopMusic =>
    refine ⟨h, trivial, fun t ht _ hv hb => ?_⟩
    simp [At, ht, hv, hb]
  case stopNull => exact absurd h hn
  case stopFree | stopFlag => exact absurd h.1 hn
  all_goals exact absurd h.2 (by simp [hn])

theorem used_of_none {s : State} (h : s.audplaybuffer = none) : s.used = none := by
  unfold State.used
  split
  · rfl
  · rfl
  · exact h

/-- The playback that completes is the one whose buffer is released. -/
theorem callback_inv {s : State} (h : Inv s) (hl : s.live.isSome) (result : PlayError) :
    Inv (s.audio_play_callback result) := by
  obtain ⟨hbuf, hused, hclear⟩ := h.here.live hl
  have hbooks := h.books
  have hposts : List.Forall₂ Tells (s.done ++ [result]) (s.posts ++ [audioData result]) :=
    List.rel_append h.posts (.cons (audioData_tells result) .nil)
  rw [hused] at hbooks
  unfold State.audio_play_callback
  cases hb : s.audplaybuffer with
  | none =>
      rw [hb] at hbooks
      simp only [State.finish, hb]
      have hu : ∀ t : State, t.audplaybuffer = none → Books s.released s.next t.used :=
        fun t ht => used_of_none ht ▸ hbooks
      exact ⟨hclear _ rfl rfl rfl rfl, hu _ rfl, hposts⟩
  | some b =>
      rw [hb] at hbooks hbuf
      simp only [State.finish, hb, State.platform_free, ← hbuf]
      have hover : decide (b ∈ s.ended ++ (some b).toList) = true := by simp
      have hu : ∀ t : State, t.audplaybuffer = none →
          Books (s.released ++ [⟨b, decide (b ∈ s.ended ++ (some b).toList)⟩]) s.next t.used :=
        fun t ht => used_of_none ht ▸ hbooks.free hover
      exact ⟨hclear _ rfl rfl rfl rfl, hu _ rfl, hposts⟩

/-! ## The statements -/

/-- A statement that touches no buffer. -/
theorem Inv.move {s t : State} (h : Inv s) (here : At t) (hr : t.released = s.released)
    (hn : t.next = s.next) (hu : t.used = s.used) (hp : t.posts = s.posts)
    (hd : t.done = s.done) : Inv t :=
  ⟨here, by rw [hr, hn, hu]; exact h.books, by rw [hp, hd]; exact h.posts⟩

/-- A statement that allocates or releases one. -/
theorem Inv.book {s t : State} (h : Inv s) (here : At t)
    (hb : Books t.released t.next t.used) (hp : t.posts = s.posts) (hd : t.done = s.done) :
    Inv t :=
  ⟨here, hb, by rw [hp, hd]; exact h.posts⟩

/-- A return with nothing to play. -/
theorem Inv.ret {s : State} (h : Inv s) (hu : s.used = s.audplaybuffer)
    (hf : s.isPlaying = false) (hl : s.live = none) (hb : s.audplaybuffer = none) (ok : Bool) :
    Inv (s.ret ok) := by
  refine h.move ⟨?_, ?_⟩ rfl rfl (by rw [hu]; rfl) rfl rfl
  · simp [State.ret, hf, hl]
  · simp [State.ret, hl, hb]

/-- `free` in front of the statement that clears the pointer. -/
theorem free_books {s : State} {b : ℕ} (h : Books s.released s.next s.used)
    (hu : s.used = s.audplaybuffer) (hb : s.audplaybuffer = some b) (ho : b ∈ s.ended) :
    Books (s.platform_free b).released s.next none := by
  rw [hu, hb] at h
  exact h.free (decide_eq_true ho)

theorem exec_inv {s t : State} {ok : Bool} (h : Inv s) (hk : s.pc = .accepted → s.live.isSome)
    (he : s.exec ok = some t) : Inv t := by
  have hh := h.here
  unfold State.exec at he
  cases hp : s.pc <;> rw [At, hp] at hh <;> simp only [hp] at he
  case idle => cases he
  case playing param =>
    split at he
    · obtain rfl := Option.some.inj he
      exact h.move hh rfl rfl (by simp [State.used, State.ret, hp]) rfl rfl
    · next hf =>
        have hlive : s.live = none := by simpa using mt hh.1.mpr hf
        have hbuf : s.audplaybuffer = none := by rw [hh.2, hlive]; rfl
        have hflag : s.isPlaying = false := by simpa using hf
        cases param <;> obtain rfl := Option.some.inj he <;>
          exact h.move ⟨hflag, hlive, hbuf⟩ rfl rfl (by simp [State.used, hp]) rfl rfl
  case unfreed data format =>
    rw [if_neg (by simp [hh.2.2])] at he
    obtain rfl := Option.some.inj he
    exact h.move hh rfl rfl (by simp [State.used, hp]) rfl rfl
  case dataFormat data format =>
    split at he <;> obtain rfl := Option.some.inj he
    · exact h.ret (by simp [State.used, hp]) hh.1 hh.2.1 hh.2.2 false
    · exact h.move hh rfl rfl (by simp [State.used, hp]) rfl rfl
  case malloc data mode =>
    have hbooks := h.books
    have hu : s.used = none := by simp [State.used, hp, hh.2.2]
    rw [hu] at hbooks
    split at he <;> obtain rfl := Option.some.inj he
    · exact h.book ⟨hh.1, hh.2.1⟩ hbooks.malloc rfl rfl
    · exact h.book ⟨hh.1, hh.2.1⟩ hbooks rfl rfl
  case allocated data mode =>
    split at he <;> obtain rfl := Option.some.inj he
    · next hb => exact h.ret (by simp [State.used, hp]) hh.1 hh.2 hb false
    · exact h.move hh rfl rfl (by simp [State.used, hp]) rfl rfl
  case memcpy data mode =>
    obtain ⟨b, hb, rfl⟩ := Option.map_eq_some_iff.mp he
    exact h.move ⟨hh.1, hh.2, hb⟩ rfl rfl (by simp [State.used, hp]) rfl rfl
  case nameLength filename =>
    split at he <;> obtain rfl := Option.some.inj he
    · exact h.ret (by simp [State.used, hp]) hh.1 hh.2.1 hh.2.2 false
    · exact h.move hh rfl rfl (by simp [State.used, hp]) rfl rfl
  case fileFormat filename =>
    split at he <;> obtain rfl := Option.some.inj he
    · exact h.ret (by simp [State.used, hp]) hh.1 hh.2.1 hh.2.2 false
    · exact h.move hh rfl rfl (by simp [State.used, hp]) rfl rfl
  case music request =>
    split at he <;> obtain rfl := Option.some.inj he
    · exact h.move ⟨hh.1, hh.2.2⟩ rfl rfl (by simp [State.used, hp]) rfl rfl
    · refine h.move ⟨hh.1, hh.2.1, fun b hb => ?_⟩ rfl rfl (by simp [State.used, hp]) rfl rfl
      have hr : request.pBuffer = some b := hh.2.2.symm.trans hb
      simp [hr]
  case refused =>
    split at he <;> obtain rfl := Option.some.inj he
    · next b hb =>
        have hu : s.used = s.audplaybuffer := by simp [State.used, hp]
        exact h.book ⟨hh.1, hh.2.1⟩ (free_books h.books hu hb (hh.2.2 b hb)) rfl rfl
    · next hb => exact h.ret (by simp [State.used, hp]) hh.1 hh.2.1 hb false
  case refusedNull =>
    obtain rfl := Option.some.inj he
    refine h.move ⟨?_, ?_⟩ rfl rfl (by simp [State.used, State.ret, hp]) rfl rfl
    · simp [State.ret, hh.1, hh.2]
    · simp [State.ret, hh.2]
  case accepted =>
    obtain rfl := Option.some.inj he
    refine h.move ⟨?_, hh.2⟩ rfl rfl (by simp [State.used, State.ret, hp]) rfl rfl
    simpa [State.ret] using hk hp
  case stop =>
    split at he <;> obtain rfl := Option.some.inj he
    · exact h.move hh.2 rfl rfl (by simp [State.used, hp]) rfl rfl
    · exact h.move hh rfl rfl (by simp [State.used, State.ret, hp]) rfl rfl
  case stopMusic =>
    obtain rfl := Option.some.inj he
    refine h.move ⟨rfl, fun b hb => ?_⟩ rfl rfl (by simp [State.used, State.finish, hp]) rfl rfl
    have hr : s.live.bind Request.pBuffer = some b := hh.symm.trans hb
    simp [State.finish, hr]
  case stopFree =>
    split at he <;> obtain rfl := Option.some.inj he
    · next b hb =>
        have hu : s.used = s.audplaybuffer := by simp [State.used, hp]
        exact h.book hh.1 (free_books h.books hu hb (hh.2 b hb)) rfl rfl
    · next hb => exact h.move ⟨hh.1, hb⟩ rfl rfl (by simp [State.used, hp]) rfl rfl
  case stopNull =>
    obtain rfl := Option.some.inj he
    exact h.move ⟨hh, rfl⟩ rfl rfl (by simp [State.used, hp]) rfl rfl
  case stopFlag =>
    obtain rfl := Option.some.inj he
    refine h.move ⟨?_, ?_⟩ rfl rfl (by simp [State.used, State.ret, hp]) rfl rfl
    · simp [State.ret, hh.1]
    · simp [State.ret, hh.1, hh.2]

/-- One act that meets the condition keeps the invariant. -/
theorem step_inv {s t : State} {a : Act} (h : Inv s) (hk : Keeps s a) (hs : step s a = some t) :
    Inv t := by
  cases a with
  | play param =>
      obtain ⟨hp, hs⟩ := Option.ite_none_right_eq_some.mp hs
      obtain rfl := Option.some.inj hs
      have hh := h.here
      rw [At, hp] at hh
      exact h.move hh rfl rfl (by simp [State.used, hp]) rfl rfl
  | stop =>
      obtain ⟨hp, hs⟩ := Option.ite_none_right_eq_some.mp hs
      obtain rfl := Option.some.inj hs
      have hh := h.here
      rw [At, hp] at hh
      exact h.move hh rfl rfl (by simp [State.used, hp]) rfl rfl
  | next ok => exact exec_inv h hk hs
  | callback result =>
      obtain ⟨hl, hs⟩ := Option.ite_none_right_eq_some.mp hs
      obtain rfl := Option.some.inj hs
      exact callback_inv h hl result

/-- `isPlaying` is set for the request that was accepted last. -/
theorem keeps_of_right {s t : State} {a : Act} (hr : Right t) (hs : step s a = some t) :
    Keeps s a := by
  cases a with
  | next ok =>
      intro hp
      have he : s.exec ok = some t := hs
      simp only [State.exec, hp] at he
      obtain rfl := Option.some.inj he
      exact (hr.flag rfl).mp rfl
  | play param => trivial
  | stop => trivial
  | callback result => trivial

/-- The driver's state is right throughout a run exactly if no request completes before
`isPlaying` is set for it. -/
theorem driver_right_iff (acts : List Act) :
    Along step Right loaded acts ↔ Meets step Keeps loaded acts :=
  along_iff_meets_under (H := fun _ _ => True) (fun _ h => h.right)
    (fun _ _ _ _ h hk hs => step_inv h hk hs) (fun _ _ _ _ _ hr hs => keeps_of_right hr hs)
    loaded_inv (meets_true loaded acts)

/-- A file whose playback ends before `play_music` returns. -/
theorem not_driver_right : ¬ ∀ acts : List Act, Along step Right loaded acts := by
  intro h
  let acts : List Act := [.play (.file ".amr".toList), .next true, .next true, .next true,
    .next true, .callback .END_OF_FILE, .next true]
  have hrun : (run step loaded acts).map (fun s => (s.pc, s.isPlaying, s.live)) =
      some (.idle, true, none) := by decide
  obtain ⟨t, ht, hv⟩ := Option.map_eq_some_iff.mp hrun
  have hp : t.pc = .idle := congrArg Prod.fst hv
  have hf : t.isPlaying = true := congrArg (fun x => x.2.1) hv
  have hl : t.live = none := congrArg (fun x => x.2.2) hv
  have hsome : t.live.isSome := (((h acts).last ht).flag hp).mp hf
  rw [hl] at hsome
  cases hsome

end LuatAir200.AudioDriver
