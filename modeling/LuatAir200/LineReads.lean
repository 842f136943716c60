import LuatAir200.ByteStream

/-!
# Reading lines character by character

`stdio.c` and `preload.c` have the same loop for `fgets`, over their own `getc`. A character
passes through a plain `char`, which is signed on this processor.
-/
namespace LuatAir200.LineReads
open ByteStream

def EOF : ℤ := -1

/-- A plain `char` as an `int`. -/
def plain (b : UInt8) : ℤ := if b < 128 then b.toNat else (b.toNat : ℤ) - 256

/-- What is stored of an `int` in a `char`. -/
def toChar (c : ℤ) : UInt8 := UInt8.ofNat (c % 256).toNat

variable {σ : Type} (getc : σ → ℤ × σ)

/-- The loop from a character on, while there is room for more. -/
def fgetsLoop : ℕ → ℕ → ℤ → List UInt8 → σ → List UInt8 × σ
  | 0, idx, character, buf, s => (if character = EOF then buf.set idx 0 else buf, s)
  | room + 1, idx, character, buf, s =>
      if character = EOF then (buf.set idx 0, s)
      else
        let buf := buf.set idx (toChar character)
        if character = 10 then (buf.set (idx + 1) 0, s)
        else
          let r := getc s
          fgetsLoop room (idx + 1) r.1 buf r.2

/-- `none` is `NULL`, and else the contents of the buffer. -/
def fgets (buf : List UInt8) (n : ℕ) (s : σ) : Option (List UInt8) × σ :=
  if n ≤ 1 then (none, s)
  else
    let r := getc s
    if r.1 = EOF then (none, r.2)
    else
      let l := fgetsLoop getc (n - 1) 0 r.1 buf r.2
      (some (l.1.set (n - 1) 0), l.2)

/-! ## Characters -/

/-- The two ranges of a plain `char`. -/
theorem plain_cases (b : UInt8) : (b < 128 ∧ b.toNat < 128 ∧ plain b = b.toNat) ∨
    (¬b < 128 ∧ 128 ≤ b.toNat ∧ plain b = (b.toNat : ℤ) - 256) := by
  have hlt : b < 128 ↔ b.toNat < 128 := UInt8.lt_iff_toNat_lt
  rw [plain]
  by_cases hb : b < 128
  · exact .inl ⟨hb, hlt.mp hb, if_pos hb⟩
  · exact .inr ⟨hb, Nat.le_of_not_lt (mt hlt.mpr hb), if_neg hb⟩

theorem plain_eq_eof (b : UInt8) : plain b = EOF ↔ b = 255 := by
  have hb : b.toNat < 256 := b.toNat_lt
  have he : b = 255 ↔ b.toNat = 255 := UInt8.toNat_inj.symm
  rw [he]
  unfold EOF
  obtain ⟨-, hl, hp⟩ | ⟨-, hl, hp⟩ := plain_cases b <;> omega

theorem plain_eq_newline (b : UInt8) : plain b = 10 ↔ b = 10 := by
  have hb : b.toNat < 256 := b.toNat_lt
  have he : b = 10 ↔ b.toNat = 10 := UInt8.toNat_inj.symm
  rw [he]
  obtain ⟨-, hl, hp⟩ | ⟨-, hl, hp⟩ := plain_cases b <;> omega

theorem plain_eq_toNat (b : UInt8) : plain b = b.toNat ↔ b < 128 := by
  have hb : b.toNat < 256 := b.toNat_lt
  obtain ⟨hlt, -, hp⟩ | ⟨hge, hl, hp⟩ := plain_cases b
  · exact ⟨fun _ => hlt, fun _ => hp⟩
  · exact ⟨fun h => by omega, fun h => absurd h hge⟩

theorem toChar_plain (b : UInt8) : toChar (plain b) = b := by
  have hb : b.toNat < 256 := b.toNat_lt
  have hm : (plain b % 256).toNat = b.toNat := by
    obtain ⟨-, hl, hp⟩ | ⟨-, hl, hp⟩ := plain_cases b <;> omega
  rw [toChar, hm, UInt8.ofNat_toNat]

/-- What `getc` makes of a character. -/
def plainInt (c : Option UInt8) : ℤ := c.elim EOF plain

theorem toInt_iff (c : Option UInt8) : plainInt c = toInt c ↔ ∀ b ∈ c, b < 128 := by
  cases c with
  | none => simp [plainInt, toInt, EOF]
  | some b =>
      simp only [plainInt, toInt, Option.elim_some, plain_eq_toNat, Option.mem_some_iff, forall_eq']

/-! ## Lines -/

/-- What is stored of the bytes ahead when there is room for so many, and how many
bytes it takes: one that no room is left for, and one that looks like the end, are lost. -/
def fill : ℕ → List UInt8 → List UInt8 × ℕ
  | 0, [] | _ + 1, [] => ([], 0)
  | 0, _ :: _ => ([], 1)
  | n + 1, b :: bs =>
      if b = 255 then ([], 1)
      else if b = 10 then ([10], 1)
      else (b :: (fill n bs).1, (fill n bs).2 + 1)

/-- A line without a byte 255 is stored, and a byte after it is lost if it is not the last. -/
theorem fill_line {n : ℕ} {bs : List UInt8} (h : 255 ∉ line n bs) : fill n bs =
    (line n bs, (line n bs).length + if 10 ∈ line n bs ∨ bs.length ≤ n then 0 else 1) := by
  induction n, bs using line.induct with
  | case1 bs => cases bs <;> simp [fill, line]
  | case2 n => simp [fill, line]
  | case3 n bs => simp [fill, line]
  | case4 n b bs hb ih =>
      rw [line, if_neg hb, List.mem_cons, not_or] at h
      have hb' : b ≠ 255 := Ne.symm h.1
      have h10 : (10 : UInt8) ≠ b := Ne.symm hb
      rw [fill, if_neg hb', if_neg hb, ih h.2, line, if_neg hb]
      simp only [List.length_cons, List.mem_cons, h10, false_or, Nat.succ_eq_add_one,
        Nat.add_le_add_iff_right, Prod.mk.injEq, true_and]
      omega

/-- A byte 255 ends what is stored of a line. -/
theorem fill_cut {n : ℕ} {bs : List UInt8} (h : 255 ∈ line n bs) :
    ∃ t, line n bs = (fill n bs).1 ++ 255 :: t := by
  induction n, bs using line.induct with
  | case1 bs => simp [line] at h
  | case2 n => simp [line] at h
  | case3 n bs => simp [line] at h
  | case4 n b bs hb ih =>
      rw [line, if_neg hb] at h ⊢
      by_cases hb' : b = 255
      · exact ⟨line n bs, by simp [fill, hb']⟩
      · obtain ⟨t, ht⟩ := ih ((List.mem_cons.mp h).resolve_left (Ne.symm hb'))
        refine ⟨t, ?_⟩
        rw [fill, if_neg hb', if_neg hb, ht]
        rfl

/-- What is stored later leaves the front of a buffer alone. -/
theorem prefix_set {p l : List UInt8} (h : p <+: l) {i : ℕ} (hi : p.length ≤ i) (b : UInt8) :
    p <+: l.set i b := by
  rw [List.prefix_iff_eq_take, List.take_set_of_le hi]
  exact List.prefix_iff_eq_take.mp h

theorem prefix_set_concat {p l : List UInt8} (h : p <+: l) (hl : p.length < l.length) (b : UInt8) :
    p ++ [b] <+: l.set p.length b := by
  obtain ⟨t, rfl⟩ := h
  cases t with
  | nil => simp at hl
  | cons x t =>
      rw [List.set_append_right _ _ (Nat.le_refl _), Nat.sub_self, List.set_cons_zero]
      exact ⟨t, by simp⟩

/-- To store the zero at the end again changes nothing. -/
theorem prefix_set_zero {p l : List UInt8} (h : p ++ [0] <+: l) {i : ℕ} (hi : p.length ≤ i) :
    p ++ [0] <+: l.set i 0 := by
  have hp : p <+: l := (List.prefix_append p [0]).trans h
  have hl := h.length_le
  rw [List.length_append, List.length_singleton] at hl
  obtain rfl | hlt := Nat.eq_or_lt_of_le hi
  · exact prefix_set_concat hp (by omega) 0
  · apply prefix_set h
    rw [List.length_append, List.length_singleton]
    omega

/-- A line that fits into the room, or ends with it, and has no byte 255. -/
def Fits (room : ℕ) (bs : List UInt8) : Prop :=
  255 ∉ line room bs ∧ (10 ∈ line room bs ∨ bs.length ≤ room)

instance (room : ℕ) (bs : List UInt8) : Decidable (Fits room bs) := by
  unfold Fits
  infer_instance

theorem fill_fits {n : ℕ} {bs : List UInt8} (h : Fits n bs) :
    fill n bs = (line n bs, (line n bs).length) := by
  rw [fill_line h.1, if_pos h.2, Nat.add_zero]

/-- The result of `fgets` for the bytes that are stored. -/
def Stored : Option (List UInt8) → List UInt8 → Prop
  | none, data => data = []
  | some buf, data => data ≠ [] ∧ data ++ [0] <+: buf

theorem prefix_next {p t l : List UInt8} {a : UInt8} (h : p ++ a :: t <+: l) :
    l[p.length]? = some a := by
  obtain ⟨u, rfl⟩ := h
  simp

/-! ## The loop -/

variable {getc}

/-- The characters are the bytes from a position on, one after the other. -/
def Delivers (getc : σ → ℤ × σ) (F : ℕ → σ → Prop) (bytes : List UInt8) : Prop :=
  ∀ pos s, F pos s → (getc s).1 = plainInt (bytes.drop pos).head? ∧
    F (pos + ((bytes.drop pos).take 1).length) (getc s).2

variable {F : ℕ → σ → Prop} {bytes : List UInt8} {pos : ℕ} {s : σ}

theorem Delivers.nil (hd : Delivers getc F bytes) (h : F pos s) (hb : bytes.drop pos = []) :
    (getc s).1 = EOF ∧ F pos (getc s).2 := by
  have hg := hd pos s h
  rw [hb] at hg
  exact hg

theorem Delivers.cons (hd : Delivers getc F bytes) (h : F pos s) {b : UInt8} {bs : List UInt8}
    (hb : bytes.drop pos = b :: bs) : (getc s).1 = plain b ∧ F (pos + 1) (getc s).2 := by
  have hg := hd pos s h
  rw [hb] at hg
  exact hg

/-- The loop stores what `fill` says behind what has been stored, and a zero after it. -/
theorem fgetsLoop_fill (hd : Delivers getc F bytes) {room : ℕ} {front buf : List UInt8}
    (h : F pos s) (hf : front <+: buf) (hl : buf.length = front.length + room + 1) :
    front ++ (fill room (bytes.drop pos)).1 ++ [0] <+:
      (fgetsLoop getc room front.length (getc s).1 buf (getc s).2).1.set (front.length + room) 0 ∧
    F (pos + (fill room (bytes.drop pos)).2)
      (fgetsLoop getc room front.length (getc s).1 buf (getc s).2).2 := by
  induction room generalizing front buf pos s with
  | zero =>
      rw [fgetsLoop]
      refine ⟨?_, ?_⟩
      · have hset : (if (getc s).1 = EOF then buf.set front.length 0 else buf).set
            front.length 0 = buf.set front.length 0 := by
          split
          · exact List.set_set ..
          · rfl
        have hfill : (fill 0 (bytes.drop pos)).1 = [] := by
          cases bytes.drop pos <;> rfl
        rw [Nat.add_zero, hset, hfill, List.append_nil]
        exact prefix_set_concat hf (by omega) 0
      · cases hb : bytes.drop pos with
        | nil => exact (hd.nil h hb).2
        | cons b bs => exact (hd.cons h hb).2
  | succ room ih =>
      have hlost : front ++ [] ++ [0] <+:
          (buf.set front.length 0).set (front.length + (room + 1)) 0 := by
        rw [List.append_nil]
        apply prefix_set_zero (prefix_set_concat hf (by omega) 0)
        omega
      cases hb : bytes.drop pos with
      | nil =>
          rw [fgetsLoop, if_pos (hd.nil h hb).1]
          exact ⟨hlost, (hd.nil h hb).2⟩
      | cons b bs =>
          obtain ⟨hc, hn⟩ := hd.cons h hb
          by_cases h255 : b = 255
          · have he : (getc s).1 = EOF := hc.trans ((plain_eq_eof b).mpr h255)
            rw [fgetsLoop, if_pos he, fill, if_pos h255]
            exact ⟨hlost, hn⟩
          have he : (getc s).1 ≠ EOF := by
            rw [hc]
            exact mt (plain_eq_eof b).mp h255
          have hset := prefix_set_concat hf (by omega) b
          have hlen : (front ++ [b]).length = front.length + 1 := by simp
          rw [fgetsLoop, if_neg he, fill, if_neg h255, hc, toChar_plain]
          by_cases h10 : b = 10
          · have hn10 : plain b = 10 := (plain_eq_newline b).mpr h10
            rw [if_pos h10]
            simp only [hn10, if_true]
            refine ⟨?_, hn⟩
            have hz := prefix_set_concat hset (by rw [List.length_set]; omega) 0
            rw [hlen, h10] at hz
            rw [h10]
            apply prefix_set_zero hz
            simp
          · have hn10 : plain b ≠ 10 := mt (plain_eq_newline b).mp h10
            rw [if_neg h10]
            simp only [hn10, if_false]
            have hdrop : bytes.drop (pos + 1) = bs := by
              rw [← List.drop_drop, hb]
              rfl
            have hi := ih hn hset (by rw [List.length_set, hlen]; omega)
            simp only [hlen, hdrop] at hi
            have hroom : front.length + (room + 1) = front.length + 1 + room := by omega
            have hpos : pos + ((fill room bs).2 + 1) = pos + 1 + (fill room bs).2 := by omega
            rw [hroom, hpos]
            simpa using hi

theorem fgets_fill (hd : Delivers getc F bytes) {n : ℕ} {buf : List UInt8} (hn : 2 ≤ n)
    (hb : buf.length = n) (h : F pos s) :
    Stored (fgets getc buf n s).1 (fill (n - 1) (bytes.drop pos)).1 ∧
    F (pos + (fill (n - 1) (bytes.drop pos)).2) (fgets getc buf n s).2 := by
  obtain ⟨room, rfl⟩ : ∃ room, n = room + 2 := ⟨n - 2, by omega⟩
  have hl := @fgetsLoop_fill _ _ _ _ _ _ hd (room + 1) [] buf h List.nil_prefix (by simp [hb])
  have h1 : ¬room + 2 ≤ 1 := by omega
  rw [fgets, if_neg h1]
  simp only [List.nil_append, List.length_nil, Nat.zero_add] at hl
  cases hr : bytes.drop pos with
  | nil =>
      obtain ⟨hc, hnext⟩ := hd.nil h hr
      simp only [hc, if_true]
      exact ⟨rfl, hnext⟩
  | cons b bs =>
      rw [hr] at hl
      obtain ⟨hc, hnext⟩ := hd.cons h hr
      by_cases he : b = 255
      · have heof : (getc s).1 = EOF := hc.trans ((plain_eq_eof b).mpr he)
        have hf : fill (room + 2 - 1) (b :: bs) = ([], 1) := by
          rw [Nat.add_sub_assoc (by omega), fill, if_pos he]
        simp only [heof, if_true, hf]
        exact ⟨rfl, hnext⟩
      · have heof : (getc s).1 ≠ EOF := by
          rw [hc]
          exact mt (plain_eq_eof b).mp he
        have hne : (fill (room + 2 - 1) (b :: bs)).1 ≠ [] := by
          rw [Nat.add_sub_assoc (by omega), fill, if_neg he]
          split <;> simp
        simp only [heof, if_false]
        exact ⟨⟨hne, hl.1⟩, hl.2⟩

/-- The result of `fgets` is what the standard says. -/
def Shows : Option (List UInt8) → Option (List UInt8) → Prop
  | none, none => True
  | some buf, some l => l ++ [0] <+: buf
  | _, _ => False

/-- A line that fits is got as the standard says. -/
theorem fgets_fits (hd : Delivers getc F bytes) {n : ℕ} {buf : List UInt8} {r : Reader}
    (hn : 2 ≤ n) (hb : buf.length = n) (h : F r.pos s) (hf : Fits (n - 1) (r.rest bytes)) :
    Shows (fgets getc buf n s).1 (ByteStream.fgets bytes n r).1 ∧
    F (ByteStream.fgets bytes n r).2.pos (fgets getc buf n s).2 := by
  obtain ⟨hl, hnext⟩ := fgets_fill hd hn hb h
  have hfill : fill (n - 1) (bytes.drop r.pos) = _ := fill_fits hf
  rw [hfill] at hl hnext
  refine ⟨?_, hnext⟩
  rw [ByteStream.fgets]
  dsimp only
  cases ha : (fgets getc buf n s).1 with
  | none =>
      rw [ha] at hl
      have hl : line (n - 1) (r.rest bytes) = [] := hl
      rw [if_pos hl]
      trivial
  | some b =>
      rw [ha] at hl
      have hne : line (n - 1) (r.rest bytes) ≠ [] := hl.1
      rw [if_neg hne]
      exact hl.2

/-- A line that does not fit is cut, or costs a byte. -/
theorem fits_of_fgets (hd : Delivers getc F bytes) {n : ℕ} {buf : List UInt8} {r : Reader}
    (hn : 2 ≤ n) (hb : buf.length = n) (h : F r.pos s)
    (hr : Shows (fgets getc buf n s).1 (ByteStream.fgets bytes n r).1)
    (ho : ∀ p, F p (fgets getc buf n s).2 → p = (ByteStream.fgets bytes n r).2.pos) :
    Fits (n - 1) (r.rest bytes) := by
  obtain ⟨hl, hnext⟩ := fgets_fill hd hn hb h
  have ho := ho _ hnext
  rw [ByteStream.fgets] at hr ho
  dsimp only at hr ho
  have hrest : bytes.drop r.pos = r.rest bytes := rfl
  rw [hrest] at hl ho
  by_cases h255 : 255 ∈ line (n - 1) (r.rest bytes)
  · exfalso
    obtain ⟨t, ht⟩ := fill_cut h255
    rw [if_neg (List.ne_nil_of_mem h255)] at hr
    cases ha : (fgets getc buf n s).1 with
    | none =>
        rw [ha] at hr
        exact hr
    | some b =>
        rw [ha] at hl hr
        have hr : line (n - 1) (r.rest bytes) ++ [0] <+: b := hr
        rw [ht, List.append_assoc] at hr
        have h0 := prefix_next hl.2
        rw [prefix_next (a := 255) hr] at h0
        exact absurd h0 (by decide)
  · refine ⟨h255, ?_⟩
    rw [fill_line h255] at ho
    by_contra hc
    rw [if_neg hc] at ho
    dsimp only at ho
    omega

end LuatAir200.LineReads
