import LuatAir200.IconvModel
import Mathlib.Data.List.SplitBy
import Mathlib.Algebra.Ring.Nat
import Mathlib.Algebra.Order.Group.Nat
import Mathlib.Algebra.BigOperators.Group.List.Basic
import Mathlib.Tactic.SplitIfs

/-!
# Interrupted conversions

`Liconv` takes a conversion up again after E2BIG. The converters from GB2312 tell it where;
those to GB2312 are never interrupted by it. The converters from and to UTF-8 leave `*_inbuf`
where it was, so that the start of the string is converted again in place of its rest.
-/
namespace LuatAir200.Iconv
open Conversion

/-- After E2BIG the arguments say how far the conversion has come: what lies before `*_inbuf`
is what has been written, and both counts are what is left. -/
structure Honours (fct : Converter) (obsize : ℕ) (c : Call) : Prop where
  split : c.outcome.advance + c.outcome.inbytesleft = c.inbytesleft
  written : c.outcome.out.length + c.outcome.outbytesleft = obsize
  before : (fct c.inbuf c.outcome.advance obsize).ret = .ok ∧
    (fct c.inbuf c.outcome.advance obsize).out = c.outcome.out

/-- What `Liconv` returns for `s` is the output of the converter with unlimited space, and
the converter honours the protocol in each of its calls. -/
def Resumes (fct : Converter) (s : List UInt8) : Prop :=
  ∃ cs, liconv fct s = some cs ∧
    (∃ room, (fct s s.length room).ret ≠ .E2BIG) ∧
    (∀ room, (fct s s.length room).ret ≠ .E2BIG →
      cs.flatMap (pushed (obsize s)) = (fct s s.length room).out) ∧
    ∀ c ∈ cs, c.outcome.ret = .E2BIG → Honours fct (obsize s) c

theorem le_obsize (s : List UInt8) : s.length ≤ obsize s := le_max_left _ _

theorem obsize_ge (s : List UInt8) : 256 ≤ obsize s := le_max_right _ _

theorem calls_last {fct : Converter} {obsize rounds ibleft : ℕ} {inbuf : List UInt8}
    (h : (fct inbuf ibleft obsize).ret ≠ .E2BIG) :
    calls fct obsize (rounds + 1) inbuf ibleft = some [⟨inbuf, ibleft, fct inbuf ibleft obsize⟩] := by
  unfold calls
  simp only

theorem calls_more {fct : Converter} {obsize rounds ibleft : ℕ} {inbuf : List UInt8}
    (h : (fct inbuf ibleft obsize).ret = .E2BIG) :
    calls fct obsize (rounds + 1) inbuf ibleft =
      (calls fct obsize rounds (inbuf.drop (fct inbuf ibleft obsize).advance)
        (fct inbuf ibleft obsize).inbytesleft).map (⟨inbuf, ibleft, fct inbuf ibleft obsize⟩ :: ·) := by
  simp only [calls, h]

/-- The buffer is full by what the converter has written to it. -/
theorem pushed_eq {obsize : ℕ} {c : Call} (hl : c.outcome.out.length ≤ obsize)
    (ho : c.outcome.outbytesleft = obsize - c.outcome.out.length) :
    pushed obsize c = c.outcome.out := by
  apply List.take_of_length_le
  omega

/-- A conversion that is not interrupted is as good as one with unlimited space. -/
theorem resumes_of_ne {fct : Converter} {s : List UInt8} {σ : Type} {next : σ → Next σ UInt8}
    {p : σ} (hs : ∀ room, ∃ q, Stops next room 0 p (fct s s.length room).ret
      (fct s s.length room).out q)
    (ho : ∀ room, (fct s s.length room).outbytesleft = room - (fct s s.length room).out.length)
    (h : (fct s s.length (obsize s)).ret ≠ .E2BIG) : Resumes fct s := by
  refine ⟨_, calls_last h, ⟨_, h⟩, fun room hr => ?_, fun c hc he => ?_⟩
  · obtain ⟨q, hq⟩ := hs (obsize s)
    obtain ⟨q', hq'⟩ := hs room
    have hl := hq.fits
    rw [Nat.zero_add] at hl
    rw [List.flatMap_singleton, pushed_eq hl (ho (obsize s))]
    exact hq.unique h hq' hr
  · rw [List.mem_singleton.mp hc] at he
    contradiction

/-- A converter that writes something, says E2BIG and does not move `*_inbuf`. -/
theorem not_resumes {fct : Converter} {s : List UInt8}
    (h : (fct s s.length (obsize s)).ret = .E2BIG)
    (hout : (fct s s.length (obsize s)).out ≠ [])
    (ha : (fct s s.length (obsize s)).advance = 0) (h0 : (fct s 0 (obsize s)).out = []) :
    ¬Resumes fct s := by
  rintro ⟨cs, hcs, -, -, hall⟩
  rw [liconv, calls_more h] at hcs
  obtain ⟨cs, -, rfl⟩ := Option.map_eq_some_iff.mp hcs
  have := (hall _ List.mem_cons_self h).before.2
  rw [ha, h0] at this
  exact hout this.symm

/-! ## UCS-2 to GB2312 -/

section Ucs2

variable (T : Tables) (mem : List UInt8) (endian : Bool)

/-- The character `p.2`, with `p.1` characters left. -/
def ucs2Next (p : ℕ × ℕ) : Next (ℕ × ℕ) UInt8 :=
  match p with
  | (0, _) => .done
  | (inlen + 1, k) => .item 2 (some (gb2312Bytes T (ucs2At mem endian k), (inlen, k + 1)))

theorem gb2312Bytes_length (ucs2 : UInt16) : (gb2312Bytes T ucs2).length ≤ 2 := by
  unfold gb2312Bytes
  split
  · simp
  · simp

theorem ucs2Next_bounds : Bounds (ucs2Next T mem endian) (fun _ => True) (fun p => 2 * p.1) where
  item := by
    rintro ⟨inlen, k⟩ need o q - hn
    cases inlen with
    | zero => cases hn
    | succ inlen =>
        cases hn
        have := gb2312Bytes_length T (ucs2At mem endian k)
        exact ⟨trivial, by simp only; omega⟩
  need := by
    rintro ⟨inlen, k⟩ need r - hn
    cases inlen with
    | zero => cases hn
    | succ inlen =>
        cases hn
        simp only
        omega

theorem ucs2Loop_stops {outlen inlen k n : ℕ} (hn : n ≤ outlen) :
    ∃ q, Stops (ucs2Next T mem endian) outlen n (inlen, k) (ucs2Loop T mem endian outlen inlen k n).1
      (ucs2Loop T mem endian outlen inlen k n).2.2 q := by
  induction inlen generalizing k n with
  | zero => exact ⟨_, .nil hn rfl⟩
  | succ inlen ih =>
      simp only [ucs2Loop]
      split
      case isTrue hfull => exact ⟨_, .nil hn ⟨2, _, rfl, hfull⟩⟩
      case isFalse hroom =>
        have := gb2312Bytes_length T (ucs2At mem endian k)
        obtain ⟨q, hq⟩ := @ih (k + 1) (n + (gb2312Bytes T (ucs2At mem endian k)).length) (by omega)
        exact ⟨q, hq.cons rfl⟩

theorem ucs2_to_gb2312_resumes (s : List UInt8) :
    Resumes (iconv_ucs2_to_gb2312_endian T endian) s := by
  have hs := fun room => @ucs2Loop_stops T s endian room (s.length / 2) 0 0 (Nat.zero_le room)
  apply resumes_of_ne hs (fun _ => rfl)
  obtain ⟨q, hq⟩ := hs (obsize s)
  apply (ucs2Next_bounds T s endian).not_full trivial hq
  have := le_obsize s
  simp only
  omega

end Ucs2

/-! ## UCS-2 to UTF-8 -/

section Unicode

variable (src : List UInt8) (endian : Bool)

/-- The values of the characters from `k` on, of `n` in all. -/
def values (k n : ℕ) : List ℕ := (List.range' k (n - k)).map fun i => unicodeVal src endian (2 * i)

def unicodeNext (iLen iPos : ℕ) : Next ℕ UInt8 :=
  if iPos + 1 < iLen then
    .item (utf8Size (unicodeVal src endian iPos))
      (some (utf8Bytes (unicodeVal src endian iPos), iPos + 2))
  else .done

theorem utf8Size_pos (v : ℕ) : 1 ≤ utf8Size v ∧ utf8Size v ≤ 3 := by
  unfold utf8Size
  split_ifs
  all_goals omega

theorem utf8Bytes_length (v : ℕ) : (utf8Bytes v).length = utf8Size v := by
  have := utf8Size_pos v
  obtain h | h | h : utf8Size v = 1 ∨ utf8Size v = 2 ∨ utf8Size v = 3 := by omega
  all_goals simp [utf8Bytes, h]

/-- The length in UTF-8 of what is left. -/
def unicodeWeight (iLen iPos : ℕ) : ℕ :=
  ((values src endian (iPos / 2) (iLen / 2)).map utf8Size).sum

theorem values_cons {k n : ℕ} (h : k < n) :
    values src endian k n = unicodeVal src endian (2 * k) :: values src endian (k + 1) n := by
  have : n - k = n - (k + 1) + 1 := by omega
  rw [values, this, List.range'_succ, List.map_cons, values]

theorem unicodeWeight_cons {iLen iPos : ℕ} (he : 2 ∣ iPos) (h : iPos + 1 < iLen) :
    unicodeWeight src endian iLen iPos =
      utf8Size (unicodeVal src endian iPos) + unicodeWeight src endian iLen (iPos + 2) := by
  have hk : 2 * (iPos / 2) = iPos := by omega
  have hn : (iPos + 2) / 2 = iPos / 2 + 1 := by omega
  rw [unicodeWeight, values_cons src endian (by omega : iPos / 2 < iLen / 2), hk, List.map_cons,
    List.sum_cons, unicodeWeight, hn]

theorem unicodeNext_weighs (iLen : ℕ) :
    Weighs (unicodeNext src endian iLen) (2 ∣ ·) (unicodeWeight src endian iLen) where
  item := by
    intro iPos need o q hI hn
    simp only [unicodeNext] at hn
    split at hn
    case isFalse => cases hn
    case isTrue h =>
      cases hn
      rw [unicodeWeight_cons src endian hI h, utf8Bytes_length]
      exact ⟨by omega, le_rfl⟩
  need := by
    intro iPos need r hI hn
    simp only [unicodeNext] at hn
    split at hn
    case isFalse => cases hn
    case isTrue h =>
      cases hn
      rw [unicodeWeight_cons src endian hI h]
      omega
  done := by
    intro iPos hI hn
    simp only [unicodeNext] at hn
    split at hn
    case isTrue => cases hn
    case isFalse h =>
      have : iLen / 2 - iPos / 2 = 0 := by omega
      simp [unicodeWeight, values, this]
  bad := by
    intro iPos need hI hn
    simp only [unicodeNext] at hn
    split at hn
    · cases hn
    · cases hn
  exact := by
    intro iPos need o q hI hn
    simp only [unicodeNext] at hn
    split at hn
    case isFalse => cases hn
    case isTrue h =>
      cases hn
      rw [unicodeWeight_cons src endian hI h, utf8Bytes_length]

theorem unicodeLoop_stops {iLen maxOLen rounds iPos n : ℕ} (hr : iLen ≤ iPos + rounds)
    (hn : n ≤ maxOLen) :
    ∃ q, Stops (unicodeNext src endian iLen) maxOLen n iPos
      (unicodeLoop src endian iLen maxOLen rounds iPos n).1
      (unicodeLoop src endian iLen maxOLen rounds iPos n).2.2 q := by
  induction rounds generalizing iPos n with
  | zero => exact ⟨_, .nil hn (if_neg (by omega))⟩
  | succ rounds ih =>
      simp only [unicodeLoop]
      split
      case isFalse h => exact ⟨_, .nil hn (if_neg h)⟩
      case isTrue h =>
        split
        case isTrue hfull => exact ⟨_, .nil hn ⟨_, _, if_pos h, hfull⟩⟩
        case isFalse hroom =>
          have hl := utf8Bytes_length (unicodeVal src endian iPos)
          obtain ⟨q, hq⟩ := @ih (iPos + 2) (n + (utf8Bytes (unicodeVal src endian iPos)).length)
            (by omega) (by omega)
          exact ⟨q, hq.cons (if_pos h)⟩

/-- The conversion of a string to UTF-8 is right exactly if it fits into the buffer. -/
theorem ucs2_to_utf8_resumes (s : List UInt8) :
    Resumes (enc_unicode_to_utf8 endian) s ↔ unicodeWeight s endian s.length 0 ≤ obsize s := by
  have hs := fun room => @unicodeLoop_stops s endian s.length room s.length 0 0 (by omega)
    (Nat.zero_le room)
  obtain ⟨q, hq⟩ := hs (obsize s)
  have hfull := (unicodeNext_weighs s endian s.length).full_iff (Nat.dvd_zero 2) hq
  rw [Nat.zero_add] at hfull
  constructor
  · intro h
    by_contra hw
    have he := hfull.mpr (by omega)
    refine @not_resumes (enc_unicode_to_utf8 endian) _ he ?_ rfl ?_ h
    · intro hnil
      rw [he] at hq
      obtain ⟨need, r, hn, hlt⟩ := hq.because
      have hneed : need ≤ 3 := by
        simp only [unicodeNext] at hn
        split at hn
        · cases hn
          exact (utf8Size_pos _).2
        · cases hn
      have := obsize_ge s
      have hout : (unicodeLoop s endian s.length (obsize s) s.length 0 0).2.2 = [] := hnil
      rw [hout] at hlt
      simp only [List.length_nil] at hlt
      omega
    · rfl
  · intro hw
    apply resumes_of_ne hs (fun _ => rfl)
    intro he
    have := hfull.mp he
    omega

end Unicode

/-! ## GB2312 to UCS-2 -/

section Gb2312

variable (T : Tables) (endian : Bool)

theorem byte_drop (mem : List UInt8) (a i : ℕ) : byte (mem.drop a) i = byte mem (a + i) := by
  simp [byte, List.getD_eq_getElem?_getD]

/-- The character at the start of the memory, with `p.2` bytes left. -/
def gb2312Char (p : List UInt8 × ℕ) : Option (List UInt8 × List UInt8 × ℕ) :=
  if byte p.1 0 < 0x80 then
    some (ucs2Bytes endian (byte p.1 0).toUInt16, p.1.drop 1, p.2 - 1)
  else if 2 ≤ p.2 then
    some (ucs2Bytes endian (gb2312_ucs2 T (byte p.1 0) (byte p.1 1)), p.1.drop 2, p.2 - 2)
  else none

def gb2312Next (p : List UInt8 × ℕ) : Next (List UInt8 × ℕ) UInt8 :=
  if 0 < p.2 then .item 2 (gb2312Char T endian p) else .done

theorem ucs2Bytes_length (ucs2 : UInt16) : (ucs2Bytes endian ucs2).length = 2 := by
  cases endian
  · rfl
  · rfl

/-- A character has two bytes in UCS-2, and comes from one or two bytes. -/
theorem gb2312Char_some {p q : List UInt8 × ℕ} {o : List UInt8} (hp : 0 < p.2)
    (h : gb2312Char T endian p = some (o, q)) :
    o.length = 2 ∧ ∃ n, 1 ≤ n ∧ n ≤ p.2 ∧ q = (p.1.drop n, p.2 - n) ∧
      ∀ l, n ≤ l → gb2312Char T endian (p.1, l) = some (o, p.1.drop n, l - n) := by
  unfold gb2312Char at h
  split at h
  case isTrue h1 =>
    cases h
    refine ⟨ucs2Bytes_length _ _, 1, le_rfl, hp, rfl, fun l _ => ?_⟩
    simp [gb2312Char, h1]
  case isFalse h1 =>
    split at h
    case isFalse => cases h
    case isTrue h2 =>
      cases h
      refine ⟨ucs2Bytes_length _ _, 2, by omega, h2, rfl, fun l hl => ?_⟩
      simp [gb2312Char, h1, hl]

theorem gb2312Next_some {p q : List UInt8 × ℕ} {need : ℕ} {o : List UInt8}
    (h : gb2312Next T endian p = .item need (some (o, q))) :
    0 < p.2 ∧ need = 2 ∧ gb2312Char T endian p = some (o, q) := by
  unfold gb2312Next at h
  split at h
  case isTrue hp =>
    injection h with h1 h2
    exact ⟨hp, h1.symm, h2⟩
  case isFalse => cases h

theorem gb2312Next_bounds :
    Bounds (gb2312Next T endian) (fun _ => True) (fun p => 2 * p.2) where
  item := by
    intro p need o q _ hn
    obtain ⟨hp, -, hc⟩ := gb2312Next_some T endian hn
    obtain ⟨hl, n, hn1, hn2, rfl, -⟩ := gb2312Char_some T endian hp hc
    exact ⟨trivial, by simp only [hl]; omega⟩
  need := by
    intro p need r _ hn
    unfold gb2312Next at hn
    split at hn
    case isTrue hp =>
      injection hn with h1 h2
      omega
    case isFalse => cases hn

/-- A conversion moves over the bytes that it uses, and needs no others. -/
theorem gb2312_trim {p q : List UInt8 × ℕ} {o : List UInt8}
    (h : Converts (gb2312Next T endian) p o q) :
    q.2 ≤ p.2 ∧ q.1 = p.1.drop (p.2 - q.2) ∧
      ∀ k ≤ q.2, Converts (gb2312Next T endian) (p.1, p.2 - k) o (q.1, q.2 - k) := by
  induction h with
  | refl p => exact ⟨le_rfl, by simp, fun k _ => .refl _⟩
  | @item p q r need o os hn _ ih =>
      obtain ⟨hp, rfl, hc⟩ := gb2312Next_some T endian hn
      obtain ⟨-, n, hn1, hn2, rfl, hl⟩ := gb2312Char_some T endian hp hc
      obtain ⟨hle, hdrop, htrim⟩ := ih
      simp only at hle hdrop htrim
      refine ⟨by omega, ?_, fun k hk => ?_⟩
      · rw [hdrop, List.drop_drop]
        congr 1
        omega
      · have hstep : gb2312Next T endian (p.1, p.2 - k) =
            .item 2 (some (o, p.1.drop n, p.2 - n - k)) := by
          unfold gb2312Next
          rw [if_pos (by simp only; omega), hl _ (by omega), Nat.sub_right_comm]
        exact .item hstep (htrim k hk)

theorem gb2312Loop_stops (mem : List UInt8) {outlen rounds gbbuf inlen n : ℕ}
    (hr : inlen ≤ rounds) (hn : n ≤ outlen) :
    ∃ q, Stops (gb2312Next T endian) outlen n (mem.drop gbbuf, inlen)
        (gb2312Loop T mem endian outlen rounds gbbuf inlen n).1
        (gb2312Loop T mem endian outlen rounds gbbuf inlen n).2.2.2 q ∧
      ((gb2312Loop T mem endian outlen rounds gbbuf inlen n).1 = .E2BIG →
        (gb2312Loop T mem endian outlen rounds gbbuf inlen n).2.2.1 = q.2 ∧
        (gb2312Loop T mem endian outlen rounds gbbuf inlen n).2.1 + q.2 = gbbuf + inlen) := by
  induction rounds generalizing gbbuf inlen n with
  | zero =>
      obtain rfl : inlen = 0 := by omega
      exact ⟨_, .nil hn rfl, nofun⟩
  | succ rounds ih =>
      have hb : ∀ i, byte (mem.drop gbbuf) i = byte mem (gbbuf + i) := byte_drop mem gbbuf
      simp only [gb2312Loop]
      split
      case isFalse h => exact ⟨_, .nil hn (if_neg h), nofun⟩
      case isTrue h =>
        have hnext : gb2312Next T endian (mem.drop gbbuf, inlen) =
            .item 2 (gb2312Char T endian (mem.drop gbbuf, inlen)) := if_pos h
        split
        case isTrue hfull => exact ⟨_, .nil hn ⟨2, _, hnext, hfull⟩, fun _ => ⟨rfl, rfl⟩⟩
        case isFalse hroom =>
          split
          case isTrue h1 =>
            obtain ⟨q, hq, hpos⟩ := @ih (gbbuf + 1) (inlen - 1)
              (n + (ucs2Bytes endian (byte mem gbbuf).toUInt16).length) (by omega)
              (by rw [ucs2Bytes_length]; omega)
            have hchar : gb2312Next T endian (mem.drop gbbuf, inlen) = .item 2
                (some (ucs2Bytes endian (byte mem gbbuf).toUInt16,
                  mem.drop (gbbuf + 1), inlen - 1)) := by
              rw [hnext, gb2312Char]
              simp [hb, h1]
            refine ⟨q, hq.cons hchar, fun he => ?_⟩
            obtain ⟨hl, hs⟩ := hpos he
            exact ⟨hl, by simp only; omega⟩
          case isFalse h1 =>
            split
            case isTrue h2 =>
              obtain ⟨q, hq, hpos⟩ := @ih (gbbuf + 2) (inlen - 2)
                (n + (ucs2Bytes endian (gb2312_ucs2 T (byte mem gbbuf)
                  (byte mem (gbbuf + 1)))).length) (by omega)
                (by rw [ucs2Bytes_length]; omega)
              have hchar : gb2312Next T endian (mem.drop gbbuf, inlen) = .item 2
                  (some (ucs2Bytes endian (gb2312_ucs2 T (byte mem gbbuf) (byte mem (gbbuf + 1))),
                    mem.drop (gbbuf + 2), inlen - 2)) := by
                rw [hnext, gb2312Char]
                simp [hb, h1, h2]
              refine ⟨q, hq.cons hchar, fun he => ?_⟩
              obtain ⟨hl, hs⟩ := hpos he
              exact ⟨hl, by simp only; omega⟩
            case isFalse h2 =>
              refine ⟨_, .nil hn ⟨2, ?_, by omega⟩, nofun⟩
              rw [hnext, gb2312Char]
              simp [hb, h1, h2]

/-- The call at a position, and where it leaves its arguments when it is interrupted. -/
theorem gb2312_call (mem : List UInt8) (left room : ℕ) :
    ∃ q, Stops (gb2312Next T endian) room 0 (mem, left)
        (iconv_gb2312_to_ucs2_endian T endian mem left room).ret
        (iconv_gb2312_to_ucs2_endian T endian mem left room).out q ∧
      ((iconv_gb2312_to_ucs2_endian T endian mem left room).ret = .E2BIG →
        (iconv_gb2312_to_ucs2_endian T endian mem left room).inbytesleft = q.2 ∧
        (iconv_gb2312_to_ucs2_endian T endian mem left room).advance + q.2 = left) := by
  obtain ⟨q, hq, hpos⟩ := @gb2312Loop_stops T endian mem room left 0 left 0 le_rfl (Nat.zero_le room)
  refine ⟨q, hq, fun he => ?_⟩
  obtain ⟨hl, hs⟩ := hpos he
  exact ⟨hl, by rw [Nat.zero_add] at hs; exact hs⟩

/-- An interrupted call has come further, and the converter says how far. -/
theorem gb2312_interrupted {inbuf : List UInt8} {ibleft obsize : ℕ} (ho : 2 ≤ obsize)
    {q : List UInt8 × ℕ} {r : Outcome}
    (hr : r = iconv_gb2312_to_ucs2_endian T endian inbuf ibleft obsize)
    (hq : Stops (gb2312Next T endian) obsize 0 (inbuf, ibleft) .E2BIG r.out q)
    (hl : r.inbytesleft = q.2) (hadv : r.advance + q.2 = ibleft) :
    q.2 < ibleft ∧ q.1 = inbuf.drop r.advance ∧
      Honours (iconv_gb2312_to_ucs2_endian T endian) obsize ⟨inbuf, ibleft, r⟩ := by
  have hfits := hq.fits
  rw [Nat.zero_add] at hfits
  obtain ⟨-, hdrop, htrim⟩ := gb2312_trim T endian hq.converts
  simp only [show ibleft - q.2 = r.advance by omega] at hdrop htrim
  refine ⟨?_, hdrop, ?_, ?_, ?_⟩
  · obtain ⟨need, x, hn, hfull⟩ := hq.because
    have hneed : need = 2 := by
      unfold gb2312Next at hn
      split at hn
      · injection hn with h1
        exact h1.symm
      · cases hn
    have hb := ((gb2312Next_bounds T endian).converts trivial hq.converts).2
    simp only at hb
    omega
  · rw [hl]
    exact hadv
  · have hw : r.outbytesleft = obsize - r.out.length := by
      rw [hr]
      rfl
    simp only
    omega
  · have ht := htrim q.2 le_rfl
    rw [show ibleft - q.2 = r.advance by omega, Nat.sub_self] at ht
    obtain ⟨q2, hq2, -⟩ := gb2312_call T endian inbuf r.advance obsize
    refine hq2.complete ht (if_neg (Nat.lt_irrefl 0)) hfits ?_
    intro p need o x hn
    obtain ⟨hp, rfl, hc⟩ := gb2312Next_some T endian hn
    exact (gb2312Char_some T endian hp hc).1.ge

/-- Each interrupted call is taken up where it ended, so that all calls together convert the
whole string. -/
theorem gb2312_calls {obsize rounds ibleft : ℕ} {inbuf : List UInt8} (h : ibleft < rounds)
    (ho : 2 ≤ obsize) :
    ∃ cs q, calls (iconv_gb2312_to_ucs2_endian T endian) obsize rounds inbuf ibleft = some cs ∧
      Converts (gb2312Next T endian) (inbuf, ibleft) (cs.flatMap (pushed obsize)) q ∧
      Ends (gb2312Next T endian) q ∧
      ∀ c ∈ cs, c.outcome.ret = .E2BIG →
        Honours (iconv_gb2312_to_ucs2_endian T endian) obsize c := by
  induction rounds generalizing inbuf ibleft with
  | zero => omega
  | succ rounds ih =>
      obtain ⟨q, hq, hpos⟩ := gb2312_call T endian inbuf ibleft obsize
      generalize hr : iconv_gb2312_to_ucs2_endian T endian inbuf ibleft obsize = r at hq hpos
      have hpush : pushed obsize ⟨inbuf, ibleft, r⟩ = r.out := by
        have hfits := hq.fits
        rw [Nat.zero_add] at hfits
        apply pushed_eq hfits
        rw [← hr]
        rfl
      by_cases he : r.ret = .E2BIG
      · obtain ⟨hl, hadv⟩ := hpos he
        rw [he] at hq
        obtain ⟨hlt, hdrop, hhon⟩ := gb2312_interrupted T endian ho hr.symm hq hl hadv
        obtain ⟨cs, q', hcs, hconv, hends, hall⟩ := @ih q.2 q.1 (by omega)
        refine ⟨⟨inbuf, ibleft, r⟩ :: cs, q', ?_, ?_, hends, ?_⟩
        · rw [calls_more (by rw [hr, he]), hr, hl, ← hdrop, hcs]
          rfl
        · rw [List.flatMap_cons, hpush]
          exact hq.converts.trans hconv
        · intro c hc hce
          obtain rfl | hc := List.mem_cons.mp hc
          · exact hhon
          · exact hall c hc hce
      · refine ⟨[⟨inbuf, ibleft, r⟩], q, ?_, ?_, hq.ends he, ?_⟩
        · rw [← hr] at he ⊢
          exact calls_last he
        · rw [List.flatMap_singleton, hpush]
          exact hq.converts
        · intro c hc hce
          rw [List.mem_singleton.mp hc] at hce
          contradiction

theorem gb2312_to_ucs2_resumes (s : List UInt8) :
    Resumes (iconv_gb2312_to_ucs2_endian T endian) s := by
  have ho : 2 ≤ obsize s := by
    have := obsize_ge s
    omega
  obtain ⟨cs, q, hcs, hconv, hends, hall⟩ := @gb2312_calls T endian (obsize s) (s.length + 1)
    s.length s (Nat.lt_succ_self _) ho
  refine ⟨cs, hcs, ⟨2 * s.length, ?_⟩, fun room hr => ?_, hall⟩
  · obtain ⟨q', hq', -⟩ := gb2312_call T endian s s.length (2 * s.length)
    exact (gb2312Next_bounds T endian).not_full trivial hq' (by simp)
  · obtain ⟨q', hq', -⟩ := gb2312_call T endian s s.length room
    exact (hconv.unique hends hq'.converts (hq'.ends hr)).1

end Gb2312

/-! ## UTF-8 to UCS-2 -/

def continuation (b : UInt8) : Bool := b &&& 0xC0 = 0x80

/-- A character of one to four bytes. -/
inductive Utf8 : List UInt8 → Prop
  | one {a : UInt8} (ha : a &&& 0x80 = 0) : Utf8 [a]
  | two {a b : UInt8} (ha : a &&& 0xE0 = 0xC0) (hb : continuation b = true) : Utf8 [a, b]
  | three {a b c : UInt8} (ha : a &&& 0xF0 = 0xE0) (hb : continuation b = true)
      (hc : continuation c = true) : Utf8 [a, b, c]
  | four {a b c d : UInt8} (ha : a &&& 0xF8 = 0xF0) (hb : continuation b = true)
      (hc : continuation c = true) (hd : continuation d = true) : Utf8 [a, b, c, d]

/-- A string that is made of characters. -/
def Text (s : List UInt8) : Prop := ∃ cs : List (List UInt8), (∀ c ∈ cs, Utf8 c) ∧ s = cs.flatten

/-- The characters of a string: each starts at a byte that is no continuation. -/
def characters (s : List UInt8) : List (List UInt8) := s.splitBy fun _ b => continuation b

/-- The characters that the converter accepts; of those of two bytes only the half with a
second byte below 0xA0, and none of four bytes. -/
def accepted : List UInt8 → Bool
  | [_] => true
  | [_, b] => b &&& 0xE0 = 0x80
  | [_, _, _] => true
  | _ => false

/-- How many characters the converter tries: up to the first that it does not accept. -/
def attempts : List (List UInt8) → ℕ
  | [] => 0
  | c :: cs => if accepted c then attempts cs + 1 else 1

theorem forall_byte {P : UInt8 → Prop} (h : ∀ n : Fin UInt8.size, P (UInt8.ofFin n)) (a : UInt8) :
    P a := h a.toFin

/-- The first byte tells the size of a character, and is no continuation. -/
theorem lead (a : UInt8) :
    (a &&& 0x80 = 0 → enc_get_utf8_size a = 1 ∧ continuation a = false) ∧
    (a &&& 0xE0 = 0xC0 → enc_get_utf8_size a = 2 ∧ continuation a = false) ∧
    (a &&& 0xF0 = 0xE0 → enc_get_utf8_size a = 3 ∧ continuation a = false) ∧
    (a &&& 0xF8 = 0xF0 → enc_get_utf8_size a = 4 ∧ continuation a = false) := by
  revert a
  apply forall_byte
  decide +kernel

theorem Utf8.ne_nil {c : List UInt8} (h : Utf8 c) : c ≠ [] := by
  cases h
  all_goals exact List.cons_ne_nil _ _

theorem characters_flatten {cs : List (List UInt8)} (h : ∀ c ∈ cs, Utf8 c) :
    characters cs.flatten = cs := by
  apply List.splitBy_flatten
  · intro hn
    exact (h [] hn).ne_nil rfl
  · intro m hm
    cases h m hm with
    | one ha => simp
    | two ha hb => simpa using hb
    | three ha hb hc => simpa using ⟨hb, hc⟩
    | four ha hb hc hd => simpa using ⟨hb, hc, hd⟩
  · apply List.Pairwise.isChain
    apply List.pairwise_of_forall_mem_list
    intro a ha b hb
    refine ⟨(h a ha).ne_nil, (h b hb).ne_nil, ?_⟩
    cases h b hb with
    | one hl => exact ((lead _).1 hl).2
    | two hl _ => exact ((lead _).2.1 hl).2
    | three hl _ _ => exact ((lead _).2.2.1 hl).2
    | four hl _ _ _ => exact ((lead _).2.2.2 hl).2

section Utf8ToUcs2

variable (endian : Bool)

theorem pair_length (high low : UInt8) : (pair endian high low).length = 2 := by
  cases endian
  · rfl
  · rfl

/-- What the converter does with a character at the start of the memory. -/
theorem Utf8.convert {c : List UInt8} (h : Utf8 c) (rest : List UInt8) :
    (accepted c = true → utfbytes (byte (c ++ rest) 0) = c.length ∧
      ∃ o, enc_utf8_to_unicode_one (c ++ rest) endian = some o ∧ o.length = 2) ∧
    (accepted c = false → enc_utf8_to_unicode_one (c ++ rest) endian = none) := by
  cases h with
  | @one a ha =>
      have hs := ((lead a).1 ha).1
      simp [accepted, utfbytes, byte, hs, enc_utf8_to_unicode_one, pair_length]
  | @two a b ha hb =>
      have hs := ((lead a).2.1 ha).1
      simp only [accepted, decide_eq_true_eq, decide_eq_false_iff_not]
      refine ⟨fun hx => ⟨?_, ?_⟩, fun hx => ?_⟩
      · simp [utfbytes, byte, hs]
      · simp [byte, hs, enc_utf8_to_unicode_one, pair_length, hx]
      · simp [byte, hs, enc_utf8_to_unicode_one, hx]
  | @three a b d ha hb hd =>
      have hs := ((lead a).2.2.1 ha).1
      simp only [continuation, decide_eq_true_eq] at hb hd
      simp [accepted, utfbytes, byte, hs, enc_utf8_to_unicode_one, pair_length, hb, hd]
  | @four a b d e ha hb hd he =>
      have hs := ((lead a).2.2.2 ha).1
      simp [accepted, byte, hs, enc_utf8_to_unicode_one]

theorem enc_utf8_to_unicode_one_length {mem o : List UInt8}
    (h : enc_utf8_to_unicode_one mem endian = some o) : o.length = 2 := by
  unfold enc_utf8_to_unicode_one at h
  simp only at h
  split at h
  · cases h
    exact pair_length endian _ _
  · split at h
    · cases h
    · cases h
      exact pair_length endian _ _
  · split at h
    · cases h
    · cases h
      exact pair_length endian _ _
  · cases h

def utf8Next (src : List UInt8) (iPos : ℕ) : Next ℕ UInt8 :=
  if iPos < src.length then
    .item 2 ((enc_utf8_to_unicode_one (src.drop iPos) endian).map fun o =>
      (o, iPos + utfbytes (byte src iPos)))
  else .done

/-- The position is between two characters of a string. -/
def Between (src : List UInt8) (iPos : ℕ) : Prop :=
  iPos ≤ src.length ∧ Text (src.drop iPos)

def utf8Weight (src : List UInt8) (iPos : ℕ) : ℕ := 2 * attempts (characters (src.drop iPos))

/-- The character at a position, and the positions before and after it. -/
theorem Between.cons {src : List UInt8} {iPos : ℕ} (h : Between src iPos)
    (hlt : iPos < src.length) :
    ∃ c, Utf8 c ∧ (∃ rest, src.drop iPos = c ++ rest) ∧ Between src (iPos + c.length) ∧
      utf8Weight src iPos =
        if accepted c then 2 + utf8Weight src (iPos + c.length) else 2 := by
  obtain ⟨hle, cs, hcs, hdrop⟩ := h
  cases cs with
  | nil =>
      have := congrArg List.length hdrop
      simp only [List.length_drop, List.flatten_nil, List.length_nil] at this
      omega
  | cons c cs =>
      rw [List.forall_mem_cons] at hcs
      have hnext : src.drop (iPos + c.length) = cs.flatten := by
        rw [← List.drop_drop, hdrop, List.flatten_cons, List.drop_left]
      have hlen := congrArg List.length hdrop
      simp only [List.length_drop, List.flatten_cons, List.length_append] at hlen
      refine ⟨c, hcs.1, ⟨cs.flatten, hdrop⟩, ⟨by omega, cs, hcs.2, hnext⟩, ?_⟩
      rw [utf8Weight, utf8Weight, hdrop, hnext, characters_flatten (List.forall_mem_cons.mpr hcs),
        characters_flatten hcs.2, attempts]
      split
      · omega
      · rfl

theorem utf8Next_eq {src : List UInt8} {iPos : ℕ} {c rest : List UInt8} (h : Utf8 c)
    (hdrop : src.drop iPos = c ++ rest) (hlt : iPos < src.length) :
    (accepted c = true → ∃ o, utf8Next endian src iPos = .item 2 (some (o, iPos + c.length)) ∧
      o.length = 2) ∧ (accepted c = false → utf8Next endian src iPos = .item 2 none) := by
  have hb : byte src iPos = byte (c ++ rest) 0 := by
    rw [← hdrop, byte_drop, Nat.add_zero]
  obtain ⟨hyes, hno⟩ := h.convert endian rest
  unfold utf8Next
  rw [if_pos hlt, hdrop, hb]
  constructor
  · intro ha
    obtain ⟨hu, o, ho, hl⟩ := hyes ha
    exact ⟨o, by rw [ho, hu]; rfl, hl⟩
  · intro ha
    rw [hno ha]
    rfl

theorem utf8Next_weighs (src : List UInt8) :
    Weighs (utf8Next endian src) (Between src) (utf8Weight src) where
  item := by
    intro iPos need o q hI hn
    by_cases hlt : iPos < src.length
    · obtain ⟨c, hc, ⟨rest, hdrop⟩, hb, hw⟩ := hI.cons hlt
      obtain ⟨hyes, hno⟩ := utf8Next_eq endian hc hdrop hlt
      cases ha : accepted c with
      | true =>
          obtain ⟨o', he, hl⟩ := hyes ha
          rw [he] at hn
          cases hn
          rw [ha, if_pos rfl] at hw
          exact ⟨hb, by omega⟩
      | false =>
          rw [hno ha] at hn
          cases hn
    · rw [utf8Next, if_neg hlt] at hn
      cases hn
  need := by
    intro iPos need r hI hn
    by_cases hlt : iPos < src.length
    · obtain ⟨c, -, -, -, hw⟩ := hI.cons hlt
      rw [utf8Next, if_pos hlt] at hn
      cases hn
      rw [hw]
      split
      all_goals omega
    · rw [utf8Next, if_neg hlt] at hn
      cases hn
  done := by
    intro iPos hI hn
    by_cases hlt : iPos < src.length
    · rw [utf8Next, if_pos hlt] at hn
      cases hn
    · have : src.drop iPos = [] := List.drop_eq_nil_of_le (by omega)
      rw [utf8Weight, this]
      rfl
  bad := by
    intro iPos need hI hn
    by_cases hlt : iPos < src.length
    · obtain ⟨c, hc, ⟨rest, hdrop⟩, -, hw⟩ := hI.cons hlt
      obtain ⟨hyes, hno⟩ := utf8Next_eq endian hc hdrop hlt
      cases ha : accepted c with
      | true =>
          obtain ⟨o', he, hl⟩ := hyes ha
          rw [he] at hn
          cases hn
      | false =>
          rw [hno ha] at hn
          cases hn
          rw [hw, ha]
          rfl
    · rw [utf8Next, if_neg hlt] at hn
      cases hn
  exact := by
    intro iPos need o q hI hn
    by_cases hlt : iPos < src.length
    · obtain ⟨c, hc, ⟨rest, hdrop⟩, -, hw⟩ := hI.cons hlt
      obtain ⟨hyes, hno⟩ := utf8Next_eq endian hc hdrop hlt
      cases ha : accepted c with
      | true =>
          obtain ⟨o', he, hl⟩ := hyes ha
          rw [he] at hn
          cases hn
          rw [hw, ha, if_pos rfl, hl]
      | false =>
          rw [hno ha] at hn
          cases hn
    · rw [utf8Next, if_neg hlt] at hn
      cases hn

theorem utf8Loop_stops (src : List UInt8) {maxOLen rounds iPos n : ℕ}
    (hr : src.length ≤ iPos + rounds) (hn : n ≤ maxOLen) :
    ∃ q, Stops (utf8Next endian src) maxOLen n iPos
      (utf8Loop src endian src.length maxOLen rounds iPos n).1
      (utf8Loop src endian src.length maxOLen rounds iPos n).2.2 q := by
  induction rounds generalizing iPos n with
  | zero => exact ⟨_, .nil hn (if_neg (by omega))⟩
  | succ rounds ih =>
      have hu : 1 ≤ utfbytes (byte src iPos) := by
        unfold utfbytes
        simp only
        split_ifs
        all_goals omega
      simp only [utf8Loop]
      split
      case isFalse h => exact ⟨_, .nil hn (if_neg h)⟩
      case isTrue h =>
        split
        case isTrue hfull => exact ⟨_, .nil hn ⟨2, _, if_pos h, hfull⟩⟩
        case isFalse hroom =>
          split
          case h_1 hnone =>
            refine ⟨_, .nil hn ⟨2, ?_, by omega⟩⟩
            rw [utf8Next, if_pos h, hnone]
            rfl
          case h_2 o ho =>
            have hl : o.length = 2 := enc_utf8_to_unicode_one_length endian ho
            obtain ⟨q, hq⟩ := @ih (iPos + utfbytes (byte src iPos)) (n + o.length) (by omega)
              (by omega)
            refine ⟨q, hq.cons (?_ : utf8Next endian src iPos = .item 2 _)⟩
            rw [utf8Next, if_pos h, ho]
            rfl

/-- The conversion of a text from UTF-8 is right exactly if the characters that the converter
tries fit into the buffer. -/
theorem utf8_to_ucs2_resumes {s : List UInt8} (hs : Text s) :
    Resumes (enc_utf8_to_unicode endian) s ↔ 2 * attempts (characters s) ≤ obsize s := by
  have hall := fun room => @utf8Loop_stops endian s room s.length 0 0 (by omega) (Nat.zero_le room)
  have hI : Between s 0 := ⟨Nat.zero_le _, hs⟩
  obtain ⟨q, hq⟩ := hall (obsize s)
  have hfull := (utf8Next_weighs endian s).full_iff hI hq
  rw [Nat.zero_add, utf8Weight, List.drop_zero] at hfull
  constructor
  · intro h
    by_contra hw
    have he := hfull.mpr (by omega)
    refine @not_resumes (enc_utf8_to_unicode endian) _ he ?_ rfl ?_ h
    · intro hnil
      rw [he] at hq
      obtain ⟨need, r, hn, hlt⟩ := hq.because
      have hneed : need = 2 := by
        simp only [utf8Next] at hn
        split at hn
        · cases hn
          rfl
        · cases hn
      have := obsize_ge s
      have hout : (utf8Loop s endian s.length (obsize s) s.length 0 0).2.2 = [] := hnil
      rw [hout] at hlt
      simp only [List.length_nil] at hlt
      omega
    · rfl
  · intro hw
    apply resumes_of_ne hall (fun _ => rfl)
    intro he
    have := hfull.mp he
    omega

end Utf8ToUcs2

/-! ## All conversions -/

/-- The text of a conversion from UTF-8; the other converters go over any string. -/
def WellFormed : Conv → List UInt8 → Prop
  | .utf8_to_ucs2, s => Text s
  | .utf8_to_ucs2be, s => Text s
  | _, _ => True

/-- The output fits into the buffer of `Liconv`, for the converters from and to UTF-8. -/
def Fits : Conv → List UInt8 → Prop
  | .utf8_to_ucs2, s => 2 * attempts (characters s) ≤ obsize s
  | .utf8_to_ucs2be, s => 2 * attempts (characters s) ≤ obsize s
  | .ucs2_to_utf8, s => ((values s false 0 (s.length / 2)).map utf8Size).sum ≤ obsize s
  | .ucs2be_to_utf8, s => ((values s true 0 (s.length / 2)).map utf8Size).sum ≤ obsize s
  | _, _ => True

/-- `Liconv` returns what the converter makes of the whole string, by calls that honour the
protocol, exactly if the output of a converter from or to UTF-8 fits into its buffer. -/
theorem iconv_resumes_iff (T : Tables) (conv : Conv) {s : List UInt8} (h : WellFormed conv s) :
    Resumes (iconv T conv) s ↔ Fits conv s := by
  cases conv with
  | ucs2_to_gb2312 => exact iff_of_true (ucs2_to_gb2312_resumes T false s) trivial
  | ucs2be_to_gb2312 => exact iff_of_true (ucs2_to_gb2312_resumes T true s) trivial
  | gb2312_to_ucs2 => exact iff_of_true (gb2312_to_ucs2_resumes T false s) trivial
  | gb2312_to_ucs2be => exact iff_of_true (gb2312_to_ucs2_resumes T true s) trivial
  | utf8_to_ucs2 => exact utf8_to_ucs2_resumes false h
  | utf8_to_ucs2be => exact utf8_to_ucs2_resumes true h
  | ucs2_to_utf8 => exact ucs2_to_utf8_resumes false s
  | ucs2be_to_utf8 => exact ucs2_to_utf8_resumes true s

theorem iconv_resumes_short :
    Resumes (iconv ⟨fun _ => 0, fun _ => 0, [], fun _ _ => 0, fun _ _ => 0⟩ .utf8_to_ucs2)
      [0x61, 0xE4, 0xBD, 0xA0] := by
  refine (iconv_resumes_iff _ .utf8_to_ucs2 ⟨[[0x61], [0xE4, 0xBD, 0xA0]], ?_, rfl⟩).mpr ?_
  · rw [List.forall_mem_cons, List.forall_mem_singleton]
    exact ⟨.one rfl, .three rfl rfl rfl⟩
  · show 2 * attempts _ ≤ _
    decide +kernel

/-- Of 129 letters the last is lost, and the first stands in its place. -/
theorem long_text_damaged :
    let s : List UInt8 := List.replicate 128 97 ++ [98]
    Text s ∧ (enc_utf8_to_unicode false s s.length 258).ret = .ok ∧
      (liconv (enc_utf8_to_unicode false) s).map (·.flatMap (pushed (obsize s))) ≠
        some (enc_utf8_to_unicode false s s.length 258).out := by
  refine ⟨⟨(List.replicate 128 (97 : UInt8) ++ [98]).map ([·]), fun c hc => ?_, by decide +kernel⟩,
    by decide +kernel, by decide +kernel⟩
  obtain ⟨a, ha, rfl⟩ := List.mem_map.mp hc
  obtain ha | ha := List.mem_append.mp ha
  · rw [List.eq_of_mem_replicate ha]
    exact .one rfl
  · rw [List.mem_singleton.mp ha]
    exact .one rfl

end LuatAir200.Iconv
