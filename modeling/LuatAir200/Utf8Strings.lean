import LuatAir200.Utf8Units

/-!
# Which strings the UTF-8 decoder takes

The decoder takes a continuation byte at the place of a first byte as a character, leaves out
half of the characters of two bytes, and does not look at the end of its input inside of a
character. Away from these its status, its reads and its counts are right.
-/
namespace LuatAir200.Iconv
open Conversion

/-! ## Characters -/

/-- A character of one to three bytes. -/
def Short (c : List UInt8) : Prop := Utf8 c ∧ c.length ≤ 3

/-- A string of such characters. -/
def ShortText (s : List UInt8) : Prop := ∃ cs : List (List UInt8), (∀ c ∈ cs, Short c) ∧ s = cs.flatten

/-- A byte that only continues a character. -/
def Stray (c : List UInt8) : Prop := ∃ b, c = [b] ∧ continuation b = true

/-- What the decoder takes as a character. -/
def Taken (c : List UInt8) : Prop := (Utf8 c ∧ accepted c = true) ∨ Stray c

/-- The rest of a string is shorter than its first byte says. -/
def Truncated (t : List UInt8) : Prop :=
  t ≠ [] ∧ t.length < enc_get_utf8_size (byte t 0) ∧ enc_get_utf8_size (byte t 0) ≤ 3

/-- The first byte tells the size. -/
def Sized (c : List UInt8) : Prop := c ≠ [] ∧ c.length = enc_get_utf8_size (byte c 0)

theorem Short.sized {c : List UInt8} (h : Short c) : Sized c := by
  obtain ⟨h, hlen⟩ := h
  refine ⟨h.ne_nil, ?_⟩
  cases h with
  | @one a ha => exact ((lead a).1 ha).1.symm
  | @two a b ha _ => exact ((lead a).2.1 ha).1.symm
  | @three a b d ha _ _ => exact ((lead a).2.2.1 ha).1.symm
  | four => simp at hlen

theorem continuation_size (b : UInt8) : continuation b = true → enc_get_utf8_size b = 1 := by
  revert b
  apply forall_byte
  decide +kernel

theorem short_of_accepted {c : List UInt8} (h : Utf8 c) (ha : accepted c = true) : Short c := by
  refine ⟨h, ?_⟩
  cases h with
  | four => simp [accepted] at ha
  | _ => simp

theorem Taken.sized {c : List UInt8} (h : Taken c) : Sized c := by
  obtain ⟨hc, ha⟩ | ⟨b, rfl, hb⟩ := h
  · exact (short_of_accepted hc ha).sized
  · exact ⟨List.cons_ne_nil _ _, (continuation_size b hb).symm⟩

theorem Taken.length_le {c : List UInt8} (h : Taken c) : c.length ≤ 3 := by
  obtain ⟨hc, ha⟩ | ⟨b, rfl, hb⟩ := h
  · exact (short_of_accepted hc ha).2
  · simp

/-- Where a size is told, there is one way to divide a string. -/
theorem sized_cons {c c' t t' : List UInt8} (h : Sized c) (h' : Sized c') (he : c ++ t = c' ++ t') :
    c = c' ∧ t = t' := by
  have hfirst : byte c 0 = byte c' 0 := by
    obtain ⟨a, c, rfl⟩ := List.exists_cons_of_ne_nil h.1
    obtain ⟨a', c', rfl⟩ := List.exists_cons_of_ne_nil h'.1
    exact (List.cons.inj he).1
  apply List.append_inj he
  rw [h.2, h'.2, hfirst]

theorem sized_unique {cs cs' : List (List UInt8)} {t t' : List UInt8} (h : ∀ c ∈ cs, Sized c)
    (h' : ∀ c ∈ cs', Sized c) (he : cs.flatten ++ t = cs'.flatten ++ t') :
    (∃ ds, cs' = cs ++ ds ∧ t = ds.flatten ++ t') ∨ ∃ ds, cs = cs' ++ ds ∧ t' = ds.flatten ++ t := by
  induction cs generalizing cs' with
  | nil => exact .inl ⟨cs', rfl, by simpa using he⟩
  | cons c cs ih =>
      cases cs' with
      | nil => exact .inr ⟨c :: cs, rfl, by simpa using he.symm⟩
      | cons c' cs' =>
          rw [List.forall_mem_cons] at h h'
          rw [List.flatten_cons, List.flatten_cons, List.append_assoc, List.append_assoc] at he
          obtain ⟨rfl, hrest⟩ := sized_cons h.1 h'.1 he
          obtain ⟨ds, rfl, ht⟩ | ⟨ds, rfl, ht⟩ := ih h.2 h'.2 hrest
          · exact .inl ⟨ds, rfl, ht⟩
          · exact .inr ⟨ds, rfl, ht⟩

theorem Sized.not_truncated {c t : List UInt8} (h : Sized c) : ¬Truncated (c ++ t) := by
  obtain ⟨hc, hlen⟩ := h
  rintro ⟨-, hlt, -⟩
  obtain ⟨a, c, rfl⟩ := List.exists_cons_of_ne_nil hc
  have hfirst : byte (a :: c ++ t) 0 = byte (a :: c) 0 := rfl
  rw [hfirst, ← hlen, List.length_append] at hlt
  omega

/-! ## A round of the loop -/

/-- The offsets that a round reads from its position on. -/
def offsets (size : ℕ) : List ℕ :=
  match size with
  | 2 => [0, 1]
  | 3 => [0, 1, 2]
  | _ => [0]

/-- Nothing at the start of the rest is taken, and no character is cut off. -/
def Bad (t : List UInt8) : Prop := t ≠ [] ∧ ¬Truncated t ∧ ∀ c t', t = c ++ t' → ¬Taken c

/-- What a round does with the rest `t` of the input, and `rest` behind it. -/
inductive Round (endian : Bool) (rest : List UInt8) : List UInt8 → Prop
  | taken {c t o : List UInt8} (hc : Taken c) (hl : o.length = 2)
      (ho : enc_utf8_to_unicode_one (c ++ t ++ rest) endian = some o)
      (hu : utfbytes (byte (c ++ t ++ rest) 0) = c.length)
      (hr : ∀ i ∈ offsets (enc_get_utf8_size (byte (c ++ t ++ rest) 0)), i < c.length) : Round endian rest (c ++ t)
  | truncated {t : List UInt8} (ht : Truncated t)
      (hr : ∃ i ∈ offsets (enc_get_utf8_size (byte (t ++ rest) 0)), t.length ≤ i) : Round endian rest t
  | bad {t : List UInt8} (ht : Bad t) (ho : enc_utf8_to_unicode_one (t ++ rest) endian = none)
      (hr : ∀ i ∈ offsets (enc_get_utf8_size (byte (t ++ rest) 0)), i < t.length) : Round endian rest t

theorem size_pos (b : UInt8) : 1 ≤ enc_get_utf8_size b := by
  unfold enc_get_utf8_size
  simp only
  split_ifs
  all_goals omega

/-- The first bytes of each size. -/
theorem size_cases (b : UInt8) :
    (enc_get_utf8_size b = 1 → b &&& 0x80 = 0 ∨ continuation b = true) ∧
    (enc_get_utf8_size b = 2 → b &&& 0xE0 = 0xC0) ∧
    (enc_get_utf8_size b = 3 → b &&& 0xF0 = 0xE0) := by
  revert b
  apply forall_byte
  decide +kernel

theorem half_continuation (b : UInt8) : b &&& 0xE0 = 0x80 → continuation b = true := by
  revert b
  apply forall_byte
  decide +kernel

theorem offsets_lt {size n : ℕ} (hn : 1 ≤ n) (h : size ≤ 3 → size ≤ n) :
    ∀ i ∈ offsets size, i < n := by
  unfold offsets
  split
  · have := h (by decide)
    simp
    omega
  · have := h (by decide)
    simp
    omega
  · simp
    omega

theorem offsets_last {size : ℕ} (hpos : 1 ≤ size) (h : size ≤ 3) : size - 1 ∈ offsets size := by
  obtain rfl | rfl | rfl : size = 1 ∨ size = 2 ∨ size = 3 := by omega
  all_goals simp [offsets]

section

variable (endian : Bool) (rest : List UInt8)

/-- What is too short for its first byte is read past its end. -/
theorem round_truncated {t : List UInt8} (ht : Truncated t) : Round endian rest t := by
  apply Round.truncated ht
  obtain ⟨hne, hlt, hle⟩ := ht
  obtain ⟨b, t, rfl⟩ := List.exists_cons_of_ne_nil hne
  exact ⟨_, offsets_last (size_pos b) hle, Nat.le_sub_one_of_lt hlt⟩

/-- A sized start that is not taken makes the rest bad. -/
theorem bad_of_sized {c t : List UInt8} (h : Sized c) (hc : ¬Taken c) : Bad (c ++ t) := by
  refine ⟨by simp [h.1], h.not_truncated, ?_⟩
  intro c' t' he hc'
  obtain ⟨rfl, -⟩ := sized_cons h hc'.sized he
  contradiction

/-- Where a first byte tells more than three, nothing is taken. -/
theorem bad_of_size {b : UInt8} {t : List UInt8} (h : 3 < enc_get_utf8_size b) : Bad (b :: t) := by
  refine ⟨List.cons_ne_nil _ _, fun ht => Nat.not_lt.mpr ht.2.2 h, ?_⟩
  intro c t' he hc
  obtain ⟨hne, hlen⟩ := hc.sized
  have hle := hc.length_le
  obtain ⟨a, c, rfl⟩ := List.exists_cons_of_ne_nil hne
  obtain ⟨rfl, -⟩ := List.cons.inj he
  have hfirst : byte (b :: c) 0 = b := rfl
  rw [hfirst] at hlen
  omega

theorem round_one {b : UInt8} {t : List UInt8} (hs : enc_get_utf8_size b = 1) :
    Round endian rest (b :: t) := by
  have htaken : Taken [b] := by
    obtain ha | hb := (size_cases b).1 hs
    · exact .inl ⟨.one ha, rfl⟩
    · exact .inr ⟨b, rfl, hb⟩
  have hu : utfbytes b = [b].length := utfbytes_eq hs Nat.one_ne_zero
  exact .taken (t := t) htaken (pair_length endian _ _) (decode_one endian hs) hu
    (offsets_lt Nat.one_pos fun _ => hs.le)

theorem round_two {b b2 : UInt8} {t : List UInt8} (hs : enc_get_utf8_size b = 2) :
    Round endian rest (b :: b2 :: t) := by
  have hone : enc_utf8_to_unicode_one (b :: b2 :: t ++ rest) endian =
      if b2 &&& 0xE0 = 0x80 then _ else none := decode_two endian hs
  by_cases hb : b2 &&& 0xE0 = 0x80
  · have htaken : Taken [b, b2] :=
      .inl ⟨.two ((size_cases b).2.1 hs) (half_continuation b2 hb), by simpa [accepted] using hb⟩
    have hu : utfbytes b = [b, b2].length := utfbytes_eq hs (Nat.succ_ne_zero 1)
    exact .taken (t := t) htaken (pair_length endian _ _) (hone.trans (if_pos hb)) hu
      (offsets_lt Nat.two_pos fun _ => hs.le)
  · have hbad : ¬Taken [b, b2] := by
      rintro (⟨-, ha⟩ | ⟨b', hb', -⟩)
      · exact hb (by simpa [accepted] using ha)
      · cases hb'
    have hsized : Sized [b, b2] := ⟨List.cons_ne_nil _ _, hs.symm⟩
    apply Round.bad (bad_of_sized (t := t) hsized hbad) (hone.trans (if_neg hb))
    apply offsets_lt (Nat.succ_pos _)
    have hfirst : enc_get_utf8_size (byte ([b, b2] ++ t ++ rest) 0) = 2 := hs
    rw [hfirst]
    simp

theorem round_three {b b2 b3 : UInt8} {t : List UInt8} (hs : enc_get_utf8_size b = 3) :
    Round endian rest (b :: b2 :: b3 :: t) := by
  have hone : enc_utf8_to_unicode_one (b :: b2 :: b3 :: t ++ rest) endian =
      if b2 &&& 0xC0 = 0x80 ∧ b3 &&& 0xC0 = 0x80 then _ else none := decode_three endian hs
  have hcont (b : UInt8) : continuation b = true ↔ b &&& 0xC0 = 0x80 := by simp [continuation]
  by_cases hb : b2 &&& 0xC0 = 0x80 ∧ b3 &&& 0xC0 = 0x80
  · have htaken : Taken [b, b2, b3] :=
      .inl ⟨.three ((size_cases b).2.2 hs) ((hcont b2).mpr hb.1) ((hcont b3).mpr hb.2), rfl⟩
    have hu : utfbytes b = [b, b2, b3].length := utfbytes_eq hs (Nat.succ_ne_zero 2)
    exact .taken (t := t) htaken (pair_length endian _ _) (hone.trans (if_pos hb)) hu
      (offsets_lt (Nat.succ_pos 2) fun _ => hs.le)
  · have hbad : ¬Taken [b, b2, b3] := by
      rintro (⟨hu, -⟩ | ⟨b', hb', -⟩)
      · cases hu with
        | three _ hb2 hb3 => exact hb ⟨(hcont b2).mp hb2, (hcont b3).mp hb3⟩
      · cases hb'
    have hsized : Sized [b, b2, b3] := ⟨List.cons_ne_nil _ _, hs.symm⟩
    apply Round.bad (bad_of_sized (t := t) hsized hbad) (hone.trans (if_neg hb))
    apply offsets_lt (Nat.succ_pos _)
    have hfirst : enc_get_utf8_size (byte ([b, b2, b3] ++ t ++ rest) 0) = 3 := hs
    rw [hfirst]
    simp

theorem round_more {b : UInt8} {t : List UInt8} (hs : 3 < enc_get_utf8_size b) :
    Round endian rest (b :: t) := by
  have hfirst : enc_get_utf8_size (byte (b :: t ++ rest) 0) = enc_get_utf8_size b := rfl
  have hnone : enc_utf8_to_unicode_one (b :: t ++ rest) endian = none := by
    unfold enc_utf8_to_unicode_one
    simp only [hfirst]
    split
    all_goals first | omega | rfl
  apply Round.bad (bad_of_size hs) hnone
  apply offsets_lt (Nat.succ_pos _)
  omega

/-- Each round does one of the three. -/
theorem round {t : List UInt8} (hne : t ≠ []) : Round endian rest t := by
  by_cases ht : Truncated t
  · exact round_truncated endian rest ht
  · obtain ⟨b, t, rfl⟩ := List.exists_cons_of_ne_nil hne
    have hpos := size_pos b
    have hlen (hle : enc_get_utf8_size b ≤ 3) : enc_get_utf8_size b ≤ (b :: t).length := by
      by_contra hlt
      exact ht ⟨hne, Nat.lt_of_not_le hlt, hle⟩
    obtain hs | hs | hs | hs : enc_get_utf8_size b = 1 ∨ enc_get_utf8_size b = 2 ∨
        enc_get_utf8_size b = 3 ∨ 3 < enc_get_utf8_size b := by omega
    · exact round_one endian rest hs
    · rw [hs] at hlen
      match t, hlen (by decide) with
      | b2 :: t, _ => exact round_two endian rest hs
    · rw [hs] at hlen
      match t, hlen (by decide) with
      | b2 :: b3 :: t, _ => exact round_three endian rest hs
    · exact round_more endian rest hs

end

/-! ## The loop -/

/-- The positions that the loop of `enc_utf8_to_unicode` reads. -/
def utf8Reads (src : List UInt8) (endian : Bool) (iLen maxOLen : ℕ) : ℕ → ℕ → ℕ → List ℕ
  | 0, _, _ => []
  | rounds + 1, iPos, oPos =>
      if iPos < iLen then
        if maxOLen < oPos + 2 then []
        else
          (offsets (enc_get_utf8_size (byte src iPos))).map (iPos + ·) ++
            match enc_utf8_to_unicode_one (src.drop iPos) endian with
            | none => []
            | some o =>
                utf8Reads src endian iLen maxOLen rounds (iPos + utfbytes (byte src iPos))
                  (oPos + o.length)
      else []

/-- How the loop comes to its end: the characters that it takes, and the rest. -/
structure Run (reads : List ℕ) (iPos iLen room : ℕ) (r : Status × ℕ × List UInt8)
    (cs : List (List UInt8)) (t : List UInt8) : Prop where
  taken : ∀ c ∈ cs, Taken c
  fits : 2 * cs.length ≤ room
  stop : (Truncated t ∧ 2 * cs.length + 2 ≤ room ∧ ∃ i ∈ reads, iLen ≤ i) ∨
    ((∀ i ∈ reads, i < iLen) ∧ r.2.1 = iPos + cs.flatten.length ∧ r.2.2.length = 2 * cs.length ∧
      (r.1 = .ok ∧ t = [] ∨ r.1 = .E2BIG ∧ t ≠ [] ∧ room < 2 * cs.length + 2 ∨
        r.1 = .EINVAL ∧ Bad t))

/-- A character in front of a run. -/
theorem Run.cons {reads first : List ℕ} {iPos iLen oPos maxOLen : ℕ}
    {r : Status × ℕ × List UInt8} {cs : List (List UInt8)} {c t o : List UInt8}
    (h : Run reads (iPos + c.length) iLen (maxOLen - (oPos + o.length)) r cs t) (hc : Taken c)
    (hl : o.length = 2) (hroom : oPos + 2 ≤ maxOLen) (hfirst : ∀ i ∈ first, i < iLen) :
    Run (first ++ reads) iPos iLen (maxOLen - oPos) (r.1, r.2.1, o ++ r.2.2) (c :: cs) t where
  taken := List.forall_mem_cons.mpr ⟨hc, h.taken⟩
  fits := by
    have := h.fits
    rw [List.length_cons]
    omega
  stop := by
    obtain ⟨ht, hfit, i, hi, hpast⟩ | ⟨hreads, hpos, hout, hend⟩ := h.stop
    · refine .inl ⟨ht, ?_, i, List.mem_append_right _ hi, hpast⟩
      rw [List.length_cons]
      omega
    · refine .inr ⟨?_, ?_, ?_, ?_⟩
      · intro i hi
        obtain hi | hi := List.mem_append.mp hi
        · exact hfirst i hi
        · exact hreads i hi
      · simp only [hpos, List.flatten_cons, List.length_append]
        omega
      · simp only [List.length_append, hout, List.length_cons]
        omega
      · obtain hok | ⟨hbig, ht, hfull⟩ | hbad := hend
        · exact .inl hok
        · refine .inr (.inl ⟨hbig, ht, ?_⟩)
          rw [List.length_cons]
          omega
        · exact .inr (.inr hbad)

theorem utf8Loop_run {src rest s : List UInt8} {endian : Bool} {iLen maxOLen rounds iPos oPos : ℕ}
    (h : src.drop iPos = s ++ rest) (hlen : iLen = iPos + s.length) (hr : s.length ≤ rounds)
    (ho : oPos ≤ maxOLen) :
    ∃ cs t, s = cs.flatten ++ t ∧
      Run (utf8Reads src endian iLen maxOLen rounds iPos oPos) iPos iLen (maxOLen - oPos)
        (utf8Loop src endian iLen maxOLen rounds iPos oPos) cs t := by
  induction rounds generalizing s iPos oPos with
  | zero =>
      obtain rfl : s = [] := by simpa using hr
      refine ⟨[], [], rfl, by simp, by simp, .inr ?_⟩
      simp [utf8Reads, utf8Loop]
  | succ rounds ih =>
      by_cases hs : s = []
      · subst hs
        refine ⟨[], [], rfl, by simp, by simp, .inr ?_⟩
        simp [utf8Reads, utf8Loop, hlen]
      have hpos := List.length_pos_of_ne_nil hs
      have hmore : iPos < iLen := by omega
      by_cases hfull : maxOLen < oPos + 2
      · refine ⟨[], s, rfl, by simp, by simp, .inr ?_⟩
        simp [utf8Reads, utf8Loop, hmore, hfull, hs]
        omega
      have hbyte : byte src iPos = byte (s ++ rest) 0 := by rw [← h, byte_drop, Nat.add_zero]
      rw [utf8Reads, if_pos hmore, if_neg hfull, utf8Loop, if_pos hmore, if_neg hfull, h, hbyte]
      cases round endian rest hs with
      | @taken c t o hc hl hone hu hreads =>
          have hclen := List.length_pos_of_ne_nil hc.sized.1
          rw [List.length_append] at hlen hr hpos
          have hnext : src.drop (iPos + c.length) = t ++ rest := by
            rw [← List.drop_drop, h, List.append_assoc, List.drop_left]
          obtain ⟨cs, t', rfl, hrun⟩ := ih hnext (by omega) (by omega)
            (by omega : oPos + o.length ≤ maxOLen)
          refine ⟨c :: cs, t', by simp, ?_⟩
          rw [hone]
          simp only [hu]
          apply hrun.cons hc hl (by omega)
          intro i hi
          obtain ⟨k, hk, rfl⟩ := List.mem_map.mp hi
          have := hreads k hk
          omega
      | truncated ht hreads =>
          obtain ⟨i, hi, hpast⟩ := hreads
          refine ⟨[], s, rfl, by simp, by simp, .inl ⟨ht, by simp; omega, iPos + i, ?_, by omega⟩⟩
          apply List.mem_append_left
          exact List.mem_map_of_mem hi
      | bad ht ho hreads =>
          refine ⟨[], s, rfl, by simp, by simp, .inr ?_⟩
          rw [ho]
          refine ⟨?_, rfl, rfl, .inr (.inr ⟨rfl, ht⟩)⟩
          intro i hi
          rw [List.append_nil] at hi
          obtain ⟨k, hk, rfl⟩ := List.mem_map.mp hi
          have := hreads k hk
          omega

/-- A run comes as far as the characters that it has room for. -/
theorem Run.far {reads : List ℕ} {iPos iLen room : ℕ} {r : Status × ℕ × List UInt8}
    {cs cs' : List (List UInt8)} {t t' : List UInt8} (h : Run reads iPos iLen room r cs t)
    (hc : ∀ c ∈ cs', Taken c) (hfit : 2 * cs'.length ≤ room)
    (he : cs'.flatten ++ t' = cs.flatten ++ t) : ∃ ds, cs = cs' ++ ds ∧ t' = ds.flatten ++ t := by
  obtain hfar | ⟨ds, rfl, rfl⟩ :=
    sized_unique (fun c hm => (hc c hm).sized) (fun c hm => (h.taken c hm).sized) he
  · exact hfar
  · cases ds with
    | nil => exact ⟨[], by simp, rfl⟩
    | cons d ds =>
        have hd : Taken d := hc d (by simp)
        rw [List.length_append, List.length_cons] at hfit
        rw [List.flatten_cons, List.append_assoc] at h
        obtain ⟨ht, -⟩ | ⟨-, -, -, ⟨-, hnil⟩ | ⟨-, -, hfull⟩ | ⟨-, -, -, hbad⟩⟩ := h.stop
        · exact absurd ht hd.sized.not_truncated
        · exact absurd (List.append_eq_nil_iff.mp hnil).1 hd.sized.1
        · omega
        · exact absurd hd (hbad d _ rfl)

theorem sized_eq {cs cs' : List (List UInt8)} (h : ∀ c ∈ cs, Sized c) (h' : ∀ c ∈ cs', Sized c)
    (he : cs.flatten = cs'.flatten) : cs = cs' := by
  have hnil (ds : List (List UInt8)) (hd : ∀ d ∈ ds, Sized d) (hf : [] = ds.flatten ++ []) :
      ds = [] := by
    cases ds with
    | nil => rfl
    | cons d ds => simp [(hd d (by simp)).1] at hf
  have he' : cs.flatten ++ [] = cs'.flatten ++ [] := by rw [he]
  obtain ⟨ds, rfl, hf⟩ | ⟨ds, rfl, hf⟩ := sized_unique h h' he'
  · rw [hnil ds (fun d hd => h' d (List.mem_append_right _ hd)) hf, List.append_nil]
  · rw [hnil ds (fun d hd => h d (List.mem_append_right _ hd)) hf, List.append_nil]

theorem Stray.not_short {c : List UInt8} (h : Stray c) : ¬Short c := by
  obtain ⟨b, rfl, hb⟩ := h
  rintro ⟨hu, -⟩
  cases hu with
  | one ha =>
      rw [((lead b).1 ha).2] at hb
      contradiction

theorem length_le_flatten {cs : List (List UInt8)} (h : ∀ c ∈ cs, Sized c) :
    cs.length ≤ cs.flatten.length := by
  induction cs with
  | nil => exact Nat.le_refl _
  | cons c cs ih =>
      rw [List.forall_mem_cons] at h
      have hc := List.length_pos_of_ne_nil h.1.1
      have hcs := ih h.2
      rw [List.flatten_cons, List.length_append, List.length_cons]
      omega

/-! ## Units and strings -/

/-- The units come back from their UTF-8, which is what the encoder writes. -/
structure RoundTrip (endian : Bool) (us : List UInt16) : Prop where
  encodes : ∀ rest room, (us.flatMap utf8).length ≤ room →
    (enc_unicode_to_utf8 endian (ucs2 endian us ++ rest) (2 * us.length) room).ret = .ok ∧
      (enc_unicode_to_utf8 endian (ucs2 endian us ++ rest) (2 * us.length) room).out =
        us.flatMap utf8
  decodes : ∀ rest room, 2 * us.length ≤ room →
    (enc_utf8_to_unicode endian (us.flatMap utf8 ++ rest) (us.flatMap utf8).length room).ret = .ok ∧
      (enc_utf8_to_unicode endian (us.flatMap utf8 ++ rest) (us.flatMap utf8).length room).out =
        ucs2 endian us

/-- The decoder takes the strings of characters, within their bytes, and counts right. -/
structure Sound (endian : Bool) (s rest : List UInt8) (room : ℕ) : Prop where
  accepts : 2 * s.length ≤ room →
    ((enc_utf8_to_unicode endian (s ++ rest) s.length room).ret = .ok ↔ ShortText s)
  reads : ∀ i ∈ utf8Reads (s ++ rest) endian s.length room s.length 0 0, i < s.length
  consumed : (enc_utf8_to_unicode endian (s ++ rest) s.length room).inbytesleft +
    (utf8Loop (s ++ rest) endian s.length room s.length 0 0).2.1 = s.length
  produced : (enc_utf8_to_unicode endian (s ++ rest) s.length room).outbytesleft +
    (enc_utf8_to_unicode endian (s ++ rest) s.length room).out.length = room

/-- The string does not end inside of a character that the decoder comes to; and if there is
room for it, it is no text but for stray bytes, and no text with a second byte of two from 0xA0
on. -/
structure Regular (s : List UInt8) (room : ℕ) : Prop where
  whole : ∀ (cs : List (List UInt8)) (t : List UInt8), (∀ c ∈ cs, Taken c) → s = cs.flatten ++ t →
    2 * cs.length + 2 ≤ room → ¬Truncated t
  strays : 2 * s.length ≤ room → ∀ cs : List (List UInt8), (∀ c ∈ cs, Taken c) → s = cs.flatten →
    ∀ c ∈ cs, ¬Stray c
  upper : 2 * s.length ≤ room → ∀ cs : List (List UInt8), (∀ c ∈ cs, Short c) → s = cs.flatten →
    ∀ c ∈ cs, accepted c = true

theorem roundTrip_iff (endian : Bool) (us : List UInt16) :
    RoundTrip endian us ↔ ∀ u ∈ us, Low u := by
  constructor
  · intro h
    exact (decode_units endian us [] (Nat.le_refl _)).mp (h.decodes [] _ (Nat.le_refl _))
  · intro h
    constructor
    · intro rest room hroom
      exact encode_units endian us rest hroom
    · intro rest room hroom
      exact (decode_units endian us rest hroom).mpr h

section

variable {endian : Bool} {s rest : List UInt8} {room : ℕ} {cs : List (List UInt8)} {t : List UInt8}

/-- A run that is all of the string when its characters are. -/
theorem Run.all {reads : List ℕ} {r : Status × ℕ × List UInt8} (h : Run reads 0 s.length room r cs t)
    (hdiv : s = cs.flatten ++ t) (hroom : 2 * s.length ≤ room) {cs' : List (List UInt8)}
    (hc : ∀ c ∈ cs', Taken c) (he : s = cs'.flatten) : cs = cs' ∧ t = [] := by
  have hsized : ∀ c ∈ cs', Sized c := fun c hm => (hc c hm).sized
  have hfit := length_le_flatten hsized
  rw [← he] at hfit
  have hsame : cs'.flatten ++ [] = cs.flatten ++ t := by rw [List.append_nil, ← he, hdiv]
  obtain ⟨ds, -, hnil⟩ := h.far hc (by omega) hsame
  obtain rfl := (List.append_eq_nil_iff.mp hnil.symm).2
  rw [List.append_nil] at hdiv
  exact ⟨sized_eq (fun c hm => (h.taken c hm).sized) hsized (hdiv.symm.trans he), rfl⟩

/-- With room for the whole string, a run within it ends well at its end only. -/
theorem Run.ok_iff {reads : List ℕ} {r : Status × ℕ × List UInt8}
    (h : Run reads 0 s.length room r cs t) (hdiv : s = cs.flatten ++ t)
    (hroom : 2 * s.length ≤ room) (hreads : ∀ i ∈ reads, i < s.length) :
    r.1 = .ok ↔ t = [] := by
  obtain ⟨-, -, i, hi, hpast⟩ | ⟨-, -, -, hend⟩ := h.stop
  · have := hreads i hi
    omega
  · have hlen := length_le_flatten fun c hm => (h.taken c hm).sized
    have hall := congrArg List.length hdiv
    rw [List.length_append] at hall
    obtain ⟨hok, hnil⟩ | ⟨-, hne, hfull⟩ | ⟨hbad, hne, -⟩ := hend
    · exact iff_of_true hok hnil
    · have := List.length_pos_of_ne_nil hne
      omega
    · apply iff_of_false _ hne
      rw [hbad]
      decide

theorem Sound.regular (h : Sound endian s rest room) (hdiv : s = cs.flatten ++ t)
    (hrun : Run (utf8Reads (s ++ rest) endian s.length room s.length 0 0) 0 s.length room
      (utf8Loop (s ++ rest) endian s.length room s.length 0 0) cs t) : Regular s room where
  whole := by
    intro cs' t' hc he hroom ht
    obtain ⟨ds, rfl, rfl⟩ := hrun.far hc (by omega) (he.symm.trans hdiv)
    cases ds with
    | cons d ds =>
        rw [List.flatten_cons, List.append_assoc] at ht
        exact (hrun.taken d (by simp)).sized.not_truncated ht
    | nil =>
        rw [List.append_nil] at hrun
        obtain ⟨-, -, i, hi, hpast⟩ | ⟨-, -, -, ⟨-, rfl⟩ | ⟨-, -, hfull⟩ | ⟨-, -, hbad, -⟩⟩ := hrun.stop
        · have := h.reads i hi
          omega
        · exact ht.1 rfl
        · omega
        · exact hbad ht
  strays := by
    intro hroom cs' hc he c hm hstray
    obtain ⟨rfl, rfl⟩ := hrun.all hdiv hroom hc he
    obtain ⟨cs', hshort, he'⟩ := (h.accepts hroom).mp ((hrun.ok_iff hdiv hroom h.reads).mpr rfl)
    obtain rfl := sized_eq (fun c hm => (hc c hm).sized) (fun c hm => (hshort c hm).sized)
      (he.symm.trans he')
    exact hstray.not_short (hshort c hm)
  upper := by
    intro hroom cs' hc he c hm
    have hok := (h.accepts hroom).mpr ⟨cs', hc, he⟩
    obtain rfl := (hrun.ok_iff hdiv hroom h.reads).mp hok
    rw [List.append_nil] at hdiv
    obtain rfl := sized_eq (fun c hm => (hc c hm).sized) (fun c hm => (hrun.taken c hm).sized)
      (he.symm.trans hdiv)
    obtain ⟨-, ha⟩ | hstray := hrun.taken c hm
    · exact ha
    · exact absurd (hc c hm) hstray.not_short

theorem Regular.sound (h : Regular s room) (hs : s.length < 2 ^ 32) (hdiv : s = cs.flatten ++ t)
    (hrun : Run (utf8Reads (s ++ rest) endian s.length room s.length 0 0) 0 s.length room
      (utf8Loop (s ++ rest) endian s.length room s.length 0 0) cs t) : Sound endian s rest room := by
  have hstop := hrun.stop.resolve_left fun ⟨ht, hroom, _⟩ => h.whole cs t hrun.taken hdiv hroom ht
  obtain ⟨hreads, hpos, hout, -⟩ := hstop
  constructor
  · intro hroom
    apply (hrun.ok_iff hdiv hroom hreads).trans
    constructor
    · rintro rfl
      rw [List.append_nil] at hdiv
      refine ⟨cs, fun c hm => ?_, hdiv⟩
      obtain ⟨hu, ha⟩ | hstray := hrun.taken c hm
      · exact short_of_accepted hu ha
      · exact absurd hstray (h.strays hroom cs hrun.taken hdiv c hm)
    · rintro ⟨cs', hshort, he⟩
      have htaken : ∀ c ∈ cs', Taken c := fun c hm =>
        .inl ⟨(hshort c hm).1, h.upper hroom cs' hshort he c hm⟩
      exact (hrun.all hdiv hroom htaken he).2
  · exact hreads
  · have hle := congrArg List.length hdiv
    rw [List.length_append] at hle
    simp only [enc_utf8_to_unicode, hpos, sizeSub]
    omega
  · have hfits := hrun.fits
    simp only [enc_utf8_to_unicode, hout]
    omega

end

theorem sound_iff (endian : Bool) {s : List UInt8} (rest : List UInt8) (room : ℕ)
    (hs : s.length < 2 ^ 32) : Sound endian s rest room ↔ Regular s room := by
  have hrounds : s.length ≤ s.length := Nat.le_refl _
  obtain ⟨cs, t, hdiv, hrun⟩ := @utf8Loop_run (s ++ rest) rest s endian s.length room s.length 0 0
    List.drop_zero (Nat.zero_add _).symm hrounds (Nat.zero_le room)
  rw [Nat.sub_zero] at hrun
  constructor
  · intro h
    exact h.regular hdiv hrun
  · intro h
    exact h.sound hs hdiv hrun

/-- The conversions between units and UTF-8, for every string of units and every string of
bytes. -/
theorem conversions_iff (endian : Bool) (us : List UInt16) {s : List UInt8} (rest : List UInt8)
    (room : ℕ) (hs : s.length < 2 ^ 32) :
    (RoundTrip endian us ↔ ∀ u ∈ us, Low u) ∧ (Sound endian s rest room ↔ Regular s room) :=
  ⟨roundTrip_iff endian us, sound_iff endian rest room hs⟩

theorem conversions_iff_text :
    (RoundTrip true [0x4F60, 0x61] ↔ ∀ u ∈ [0x4F60, 0x61], Low u) ∧
      (Sound true [0xE4, 0xBD, 0xA0] [0] 256 ↔ Regular [0xE4, 0xBD, 0xA0] 256) :=
  conversions_iff true [0x4F60, 0x61] [0] 256 (by decide)

/-- A letter with an accent does not come back; a stray byte is taken, and a first byte at the
end makes the decoder read past the end. -/
theorem conversions_fail :
    ¬RoundTrip false [0xE9] ∧ ¬Sound false [0x80] [0] 256 ∧ ¬Sound false [0xE4] [0] 256 := by
  refine ⟨fun h => ?_, fun h => ?_, fun h => ?_⟩
  · have hok := (h.decodes [] 2 (by decide)).1
    revert hok
    decide
  · obtain ⟨cs, hc, he⟩ := (h.accepts (by decide)).mp (by decide)
    have hstray : ∀ c ∈ [[0x80]], Sized c := by
      rw [List.forall_mem_singleton]
      exact ⟨by decide, by decide⟩
    obtain rfl := sized_eq hstray (fun c hm => (hc c hm).sized) he
    exact Stray.not_short ⟨0x80, rfl, rfl⟩ (hc [0x80] (by decide))
  · have hread : 2 ∈ utf8Reads [0xE4, 0] false 1 256 1 0 0 := by decide
    exact absurd (h.reads 2 hread) (by decide)

end LuatAir200.Iconv
