import LuatAir200.SmsHex
import LuatAir200.LowDigits
import Mathlib.Tactic.NormNum

/-!
# The packed alphabet

Septets are the digits of a number in base 128, and the octets that carry them are its digits in
base 256. What `gsm7bitdecode` has left over from an octet is the low end of that number, so that
it reads the septets one after the other, and one more when the octets have room for it.
-/
namespace LuatAir200.Sms
open Lua LowDigits

/-! ## Text -/

/-- The characters of septets: an escape and the character behind it are one, if there is such a
one. -/
def text : List ℕ → LuaString
  | [] => []
  | [c] => hex 4 (Charmap.getD c 0)
  | e :: c :: cs =>
      match if e = 27 then Charmapctl.lookup c else none with
      | some x => hex 4 x ++ text cs
      | none => hex 4 (Charmap.getD e 0) ++ text (c :: cs)

/-- An escape and a character that it has. -/
def Escapes (cs : List ℕ) : Prop :=
  ∃ before c rest, cs = before ++ 27 :: c :: rest ∧ (Charmapctl.lookup c).isSome = true

/-- One character after the text and the septet before it. -/
def put (p : LuaString × ℕ) (c : ℕ) : LuaString × ℕ :=
  match if p.2 = 27 then Charmapctl.lookup c else none with
  | some x => (ssub p.1 1 (-5) ++ hex 4 x, c)
  | none => (p.1 ++ hex 4 (Charmap.getD c 0), c)

theorem char_eq (c : ℕ) (s : Septets) : s.char c =
    { s with ucsdata := (put (s.ucsdata, s.olddat) c).1, olddat := (put (s.ucsdata, s.olddat) c).2 } := by
  unfold Septets.char put
  cases hx : if s.olddat = 27 then Charmapctl.lookup c else none with
  | some x => rfl
  | none => rfl

/-! ## The bits left over -/

/-- What is left over and an octet, as one number. -/
theorem octet_bits {nbyte nleft : ℕ} (b : ℕ) (h : nleft < 2 ^ nbyte) :
    (b <<< nbyte ||| nleft) &&& 0x7f = (nleft + 2 ^ nbyte * b) % 128 := by
  have h7f : 0x7f = 2 ^ 7 - 1 := rfl
  rw [← Nat.shiftLeft_add_eq_or_of_lt h, h7f, Nat.and_two_pow_sub_one_eq_mod, Nat.shiftLeft_eq,
    Nat.mul_comm, Nat.add_comm]

/-- An octet and the octets behind it: its character, and what they leave for the next. -/
theorem octet_stream {nbyte nleft : ℕ} (m : ℕ) (hb : nbyte ≤ 6) (h : nleft < 2 ^ nbyte) :
    (nleft + 2 ^ nbyte * (m % 256)) % 128 = (nleft + 2 ^ nbyte * m) % 128 ∧
    (m % 256) >>> (7 - nbyte) + 2 ^ (nbyte + 1) * (m / 256) = (nleft + 2 ^ nbyte * m) / 128 ∧
    (m % 256) >>> (7 - nbyte) < 2 ^ (nbyte + 1) := by
  rw [Nat.shiftRight_eq_div_pow]
  obtain rfl | rfl | rfl | rfl | rfl | rfl | rfl : nbyte = 0 ∨ nbyte = 1 ∨ nbyte = 2 ∨ nbyte = 3 ∨
    nbyte = 4 ∨ nbyte = 5 ∨ nbyte = 6 := by omega
  all_goals norm_num at h ⊢
  all_goals omega

/-- An octet that does not complete a second character. -/
theorem byte_part {s : Septets} (b : ℕ) (hb : s.nbyte < 6) (hl : s.nleft < 2 ^ s.nbyte) :
    s.byte b =
      ⟨(put (s.ucsdata, s.olddat) ((s.nleft + 2 ^ s.nbyte * b) % 128)).1,
        (put (s.ucsdata, s.olddat) ((s.nleft + 2 ^ s.nbyte * b) % 128)).2,
        s.nbyte + 1, b >>> (7 - s.nbyte), s.ucslen + 1⟩ := by
  have hpart : ¬s.nbyte + 1 = 7 := by omega
  simp only [Septets.byte, char_eq, octet_bits b hl, hpart, if_false]

/-- An octet that does. -/
theorem byte_full {s : Septets} (b : ℕ) (hb : s.nbyte = 6) (hl : s.nleft < 2 ^ s.nbyte) :
    s.byte b =
      ⟨(put (put (s.ucsdata, s.olddat) ((s.nleft + 2 ^ s.nbyte * b) % 128)) (b >>> (7 - s.nbyte))).1,
        (put (put (s.ucsdata, s.olddat) ((s.nleft + 2 ^ s.nbyte * b) % 128)) (b >>> (7 - s.nbyte))).2,
        0, 0, s.ucslen + 2⟩ := by
  have hfull : s.nbyte + 1 = 7 := by omega
  simp only [Septets.byte, char_eq, octet_bits b hl, hfull, if_true]

/-- The octets of a number give its septets, as many as there are bits for. -/
theorem foldl_byte (k m : ℕ) (s : Septets) (hb : s.nbyte ≤ 6) (hl : s.nleft < 2 ^ s.nbyte) :
    ((low 256 k m).foldl (fun s b => s.byte b) s).ucsdata =
        ((low 128 ((s.nbyte + 8 * k) / 7) (s.nleft + 2 ^ s.nbyte * m)).foldl put
          (s.ucsdata, s.olddat)).1 ∧
      ((low 256 k m).foldl (fun s b => s.byte b) s).ucslen = s.ucslen + (s.nbyte + 8 * k) / 7 := by
  induction k generalizing m s with
  | zero =>
      have hnone : (s.nbyte + 8 * 0) / 7 = 0 := by omega
      rw [hnone]
      simp [low]
  | succ k ih =>
      obtain ⟨hchar, hrest, hlt⟩ := octet_stream m hb hl
      rw [low, List.foldl_cons]
      by_cases h6 : s.nbyte = 6
      · have hcount : (s.nbyte + 8 * (k + 1)) / 7 = (0 + 8 * k) / 7 + 1 + 1 := by omega
        rw [byte_full _ h6 hl, hcount, low, low, List.foldl_cons, List.foldl_cons, hchar, ← hrest]
        have h128 : 2 ^ (6 + 1) = 128 := rfl
        have hsecond : ((m % 256) >>> (7 - s.nbyte) + 2 ^ (s.nbyte + 1) * (m / 256)) % 128 =
            (m % 256) >>> (7 - s.nbyte) := by
          rw [h6] at hlt ⊢
          rw [h128] at hlt ⊢
          rw [Nat.add_mul_mod_self_left, Nat.mod_eq_of_lt hlt]
        have hbehind : ((m % 256) >>> (7 - s.nbyte) + 2 ^ (s.nbyte + 1) * (m / 256)) / 128 =
            0 + 2 ^ 0 * (m / 256) := by
          rw [h6] at hlt ⊢
          rw [h128] at hlt ⊢
          rw [Nat.add_mul_div_left _ _ (by decide), Nat.div_eq_of_lt hlt, pow_zero, one_mul]
        rw [hsecond, hbehind]
        obtain ⟨hdata, hlen⟩ := ih (m / 256) ⟨_, _, 0, 0, s.ucslen + 2⟩ (Nat.zero_le 6) Nat.one_pos
        refine ⟨hdata, hlen.trans ?_⟩
        simp only
        omega
      · have hless : s.nbyte < 6 := by omega
        have hcount : (s.nbyte + 8 * (k + 1)) / 7 = (s.nbyte + 1 + 8 * k) / 7 + 1 := by omega
        rw [byte_part _ hless hl, hcount, low, List.foldl_cons, hchar, ← hrest]
        obtain ⟨hdata, hlen⟩ := ih (m / 256) ⟨_, _, s.nbyte + 1, _, s.ucslen + 1⟩ hless hlt
        refine ⟨hdata, hlen.trans ?_⟩
        simp only
        omega

/-! ## The characters of septets -/

theorem escape_none : Charmapctl.lookup 27 = none := rfl

theorem text_cons {c : ℕ} (h : c ≠ 27) (cs : List ℕ) :
    text (c :: cs) = hex 4 (Charmap.getD c 0) ++ text cs := by
  cases cs with
  | nil => rw [text, text, List.append_nil]
  | cons d cs => rw [text, if_neg h]

theorem text_pair {c x : ℕ} (h : Charmapctl.lookup c = some x) (cs : List ℕ) :
    text (27 :: c :: cs) = hex 4 x ++ text cs := by
  rw [text, if_pos rfl, h]

theorem text_escape {c : ℕ} (h : Charmapctl.lookup c = none) (cs : List ℕ) :
    text (27 :: c :: cs) = hex 4 (Charmap.getD 27 0) ++ text (c :: cs) := by
  rw [text, if_pos rfl, h]

theorem hex_charmap (c : ℕ) : (hex 4 (Charmap.getD c 0)).length = 4 := by
  have hall : ∀ i : Fin 128, (hex 4 (Charmap.getD i 0)).length = 4 := by decide +kernel
  by_cases hc : c < 128
  · exact hall ⟨c, hc⟩
  · have hend : Charmap.length ≤ c := Nat.le_of_not_lt hc
    rw [List.getD_eq_getElem?_getD, List.getElem?_eq_none hend]
    rfl

theorem hex_ctl {c x : ℕ} (h : Charmapctl.lookup c = some x) : (hex 4 x).length = 4 := by
  have hall : ∀ p ∈ Charmapctl, (hex 4 p.2).length = 4 := by decide +kernel
  obtain ⟨l, r, he, -⟩ := List.lookup_eq_some_iff.mp h
  apply hall (c, x)
  rw [he]
  simp

/-- A text, and a text behind an escape. -/
theorem foldl_put (cs : List ℕ) (u : LuaString) :
    (∀ old, old ≠ 27 → (cs.foldl put (u, old)).1 = u ++ text cs) ∧
      (cs.foldl put (u ++ hex 4 (Charmap.getD 27 0), 27)).1 = u ++ text (27 :: cs) := by
  induction cs generalizing u with
  | nil => simp [text]
  | cons c cs ih =>
      -- a character that stands for itself is written before what follows it
      have hplain (u : LuaString) :
          (cs.foldl put (u ++ hex 4 (Charmap.getD c 0), c)).1 = u ++ text (c :: cs) := by
        by_cases hc : c = 27
        · rw [hc]
          exact (ih u).2
        · rw [(ih _).1 c hc, text_cons hc, List.append_assoc]
      constructor
      · intro old hold
        rw [List.foldl_cons, put, if_neg hold]
        exact hplain u
      · rw [List.foldl_cons, put, if_pos rfl]
        cases hx : Charmapctl.lookup c with
        | none =>
            rw [text_escape hx, ← List.append_assoc]
            exact hplain _
        | some x =>
            have hc : c ≠ 27 := by
              rintro rfl
              rw [escape_none] at hx
              cases hx
            have hback : ssub (u ++ hex 4 (Charmap.getD 27 0)) 1 (-5) = u := by
              have hfront := ssub_front (u ++ hex 4 (Charmap.getD 27 0)) 4
              rw [List.length_append, hex_charmap, Nat.add_sub_cancel, List.take_left] at hfront
              exact hfront
            rw [text_pair hx, ← List.append_assoc]
            simp only [hback]
            exact (ih _).1 c hc

theorem escapes_cons (e c : ℕ) (cs : List ℕ) : Escapes (e :: c :: cs) ↔
    (e = 27 ∧ (Charmapctl.lookup c).isSome = true) ∨ Escapes (c :: cs) := by
  constructor
  · rintro ⟨before, d, rest, he, hd⟩
    cases before with
    | nil =>
        obtain ⟨rfl, rfl, -⟩ := by simpa using he
        exact .inl ⟨rfl, hd⟩
    | cons b before => exact .inr ⟨before, d, rest, (List.cons.inj he).2, hd⟩
  · rintro (⟨rfl, hc⟩ | ⟨before, d, rest, he, hd⟩)
    · exact ⟨[], c, cs, rfl, hc⟩
    · exact ⟨e :: before, d, rest, congrArg (e :: ·) he, hd⟩

theorem not_escapes_single (c : ℕ) : ¬Escapes [c] := by
  rintro ⟨before, d, rest, he, -⟩
  have := congrArg List.length he
  simp at this
  omega

/-- Each character has four digits, and an escape is two septets for one. -/
theorem text_length (cs : List ℕ) : (text cs).length ≤ 4 * cs.length ∧
    ((text cs).length = 4 * cs.length ↔ ¬Escapes cs) := by
  fun_induction text cs with
  | case1 =>
      refine ⟨Nat.le_refl _, iff_of_true rfl ?_⟩
      rintro ⟨before, d, rest, he, -⟩
      simp at he
  | case2 c =>
      rw [hex_charmap]
      exact ⟨Nat.le_refl _, iff_of_true rfl (not_escapes_single c)⟩
  | case3 e c cs x hx ih =>
      obtain ⟨hle, -⟩ := ih
      split at hx
      case isFalse => cases hx
      case isTrue he =>
        have hesc : Escapes (e :: c :: cs) := (escapes_cons e c cs).mpr (.inl ⟨he, by rw [hx]; rfl⟩)
        rw [List.length_append, hex_ctl hx, List.length_cons, List.length_cons]
        refine ⟨by omega, iff_of_false (by omega) (not_not_intro hesc)⟩
  | case4 e c cs hx ih =>
      obtain ⟨hle, hiff⟩ := ih
      have hesc : Escapes (e :: c :: cs) ↔ Escapes (c :: cs) := by
        rw [escapes_cons, or_iff_right]
        rintro ⟨rfl, hc⟩
        rw [if_pos rfl] at hx
        rw [hx] at hc
        cases hc
      rw [List.length_cons] at hle hiff
      rw [hesc, ← hiff, List.length_append, hex_charmap, List.length_cons, List.length_cons]
      omega

/-- A commercial at behind a text. -/
theorem text_append_zero (cs : List ℕ) : text (cs ++ [0]) = text cs ++ hex 4 0x40 := by
  fun_induction text cs with
  | case1 => rfl
  | case2 c =>
      have hzero : (if c = 27 then Charmapctl.lookup 0 else none) = none := ite_self none
      simp only [List.cons_append, List.nil_append, text, hzero]
      rfl
  | case3 e c cs x hx ih => simp only [List.cons_append, text, hx, ih, List.append_assoc]
  | case4 e c cs hx ih =>
      rw [List.cons_append] at ih
      simp only [List.cons_append, text, hx, ih, List.append_assoc]

end LuatAir200.Sms
