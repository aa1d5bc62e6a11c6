import Mathlib
import ByteChannel.Buffered.File
import ByteChannel.Mapped.Basic

/-!
# Wide paths are read exactly

What precedes the first zero of a wide path is decoded if each of its surrogates has its other half
right beside it, and only then. The path that comes out has just these units, and every path without
a zero comes out of its own.
-/

namespace ByteChannel.WidePath

/-- The surrogate at an index stands alone: no low one follows a high one, or no high one precedes a
low one. -/
def LoneAt (us : List UInt16) (i : Nat) : Prop :=
  ∃ u, us[i]? = some u ∧
    ((isHigh u = true ∧ ∀ v, us[i + 1]? = some v → isLow v = false) ∨
      isLow u = true ∧ ∀ j v, j + 1 = i → us[j]? = some v → isHigh v = false)

/-- Every surrogate is one half of a pair. -/
def Paired (us : List UInt16) : Prop := ∀ i, ¬LoneAt us i

/-! ## Surrogates -/

theorem isHigh_iff (u : UInt16) : isHigh u = true ↔ 0xD800 ≤ u.toNat ∧ u.toNat < 0xDC00 := by
  simp [isHigh, UInt16.le_iff_toNat_le, UInt16.lt_iff_toNat_lt]

theorem isLow_iff (u : UInt16) : isLow u = true ↔ 0xDC00 ≤ u.toNat ∧ u.toNat < 0xE000 := by
  simp [isLow, UInt16.le_iff_toNat_le, UInt16.lt_iff_toNat_lt]

theorem isHigh_of_isLow {u : UInt16} (h : isLow u = true) : isHigh u = false := by
  rw [isLow_iff] at h
  rw [Bool.eq_false_iff, Ne, isHigh_iff]
  omega

/-- A unit that is no surrogate is the code of a character. -/
theorem toNat_ofNat_unit {u : UInt16} (hh : isHigh u = false) (hl : isLow u = false) :
    (Char.ofNat u.toNat).toNat = u.toNat := by
  rw [Bool.eq_false_iff, Ne, isHigh_iff] at hh
  rw [Bool.eq_false_iff, Ne, isLow_iff] at hl
  have hlt := u.toNat_lt
  have hvalid : u.toNat.isValidChar := by
    unfold Nat.isValidChar
    omega
  rw [Char.toNat_ofNat, if_pos hvalid]

theorem toNat_pairChar {high low : UInt16} (hh : isHigh high = true) (hl : isLow low = true) :
    (pairChar high low).toNat =
      0x10000 + (high.toNat - 0xD800) * 0x400 + (low.toNat - 0xDC00) := by
  rw [isHigh_iff] at hh
  rw [isLow_iff] at hl
  have hvalid : Nat.isValidChar
      (0x10000 + (high.toNat - 0xD800) * 0x400 + (low.toNat - 0xDC00)) := by
    unfold Nat.isValidChar
    omega
  rw [pairChar, Char.toNat_ofNat, if_pos hvalid]

/-! ## Characters and their units -/

theorem toNat_toUInt16 {n : Nat} (h : n < 0x10000) : n.toUInt16.toNat = n :=
  Nat.mod_eq_of_lt h

theorem toUInt16_toNat (u : UInt16) : u.toNat.toUInt16 = u :=
  UInt16.toNat_inj.1 (toNat_toUInt16 u.toNat_lt)

/-- A character has one unit that is no surrogate, or a pair of them. -/
theorem units_cases (c : Char) :
    (∃ u, units c = [u] ∧ isHigh u = false ∧ isLow u = false ∧ Char.ofNat u.toNat = c) ∨
      ∃ u v, units c = [u, v] ∧ isHigh u = true ∧ isLow v = true ∧ pairChar u v = c := by
  have hvalid : c.toNat.isValidChar := c.valid
  unfold Nat.isValidChar at hvalid
  by_cases hbasic : c.toNat < 0x10000
  · have hu := toNat_toUInt16 hbasic
    refine .inl ⟨c.toNat.toUInt16, if_pos hbasic, ?_, ?_, ?_⟩
    · rw [Bool.eq_false_iff, Ne, isHigh_iff, hu]
      omega
    · rw [Bool.eq_false_iff, Ne, isLow_iff, hu]
      omega
    · rw [hu, Char.ofNat_toNat]
  · obtain ⟨n, hn⟩ := Nat.exists_eq_add_of_le (Nat.le_of_not_lt hbasic)
    have hhigh : 0xD800 + n / 0x400 < 0x10000 := by omega
    have hlow : 0xDC00 + n % 0x400 < 0x10000 := by omega
    have hu := toNat_toUInt16 hhigh
    have hv := toNat_toUInt16 hlow
    have hunits : units c = [(0xD800 + n / 0x400).toUInt16, (0xDC00 + n % 0x400).toUInt16] := by
      rw [units, if_neg hbasic, hn, Nat.add_sub_cancel_left]
    refine .inr ⟨_, _, hunits, ?_, ?_, ?_⟩
    · rw [isHigh_iff, hu]
      omega
    · rw [isLow_iff, hv]
      omega
    · have hcode : 0x10000 + (0xD800 + n / 0x400 - 0xD800) * 0x400 + (0xDC00 + n % 0x400 - 0xDC00) =
          c.toNat := by omega
      rw [pairChar, hu, hv, hcode, Char.ofNat_toNat]

theorem units_ofNat {u : UInt16} (hh : isHigh u = false) (hl : isLow u = false) :
    units (Char.ofNat u.toNat) = [u] := by
  rw [units, toNat_ofNat_unit hh hl, if_pos u.toNat_lt, toUInt16_toNat]

theorem units_pairChar {u v : UInt16} (hu : isHigh u = true) (hv : isLow v = true) :
    units (pairChar u v) = [u, v] := by
  have hc := toNat_pairChar hu hv
  rw [isHigh_iff] at hu
  rw [isLow_iff] at hv
  have hhigh : 0xD800 + ((u.toNat - 0xD800) * 0x400 + (v.toNat - 0xDC00)) / 0x400 = u.toNat := by
    omega
  have hlow : 0xDC00 + ((u.toNat - 0xD800) * 0x400 + (v.toNat - 0xDC00)) % 0x400 = v.toNat := by
    omega
  rw [units, hc, if_neg (by omega), Nat.add_assoc, Nat.add_sub_cancel_left]
  simp only [hhigh, hlow, toUInt16_toNat]

theorem encode_cons (c : Char) (cs : List Char) : encode (c :: cs) = units c ++ encode cs := rfl

/-! ## Decoding what was encoded -/

theorem decode_cons {u : UInt16} (hh : isHigh u = false) (hl : isLow u = false)
    (us : List UInt16) : decode (u :: us) = (decode us).map (Char.ofNat u.toNat :: ·) := by
  cases us with
  | nil => simp [decode, hh, hl]
  | cons v us => simp [decode, hh, hl]

theorem decode_pair {u v : UInt16} (hu : isHigh u = true) (hv : isLow v = true)
    (us : List UInt16) : decode (u :: v :: us) = (decode us).map (pairChar u v :: ·) := by
  simp [decode, hu, hv]

theorem decode_units_append (c : Char) (us : List UInt16) :
    decode (units c ++ us) = (decode us).map (c :: ·) := by
  obtain ⟨u, hunits, hh, hl, hc⟩ | ⟨u, v, hunits, hu, hv, hc⟩ := units_cases c
  · rw [hunits, List.singleton_append, decode_cons hh hl, hc]
  · rw [hunits, List.cons_append, List.singleton_append, decode_pair hu hv, hc]

theorem decode_encode (cs : List Char) : decode (encode cs) = some cs := by
  induction cs with
  | nil => rfl
  | cons c cs ih => rw [encode_cons, decode_units_append, ih, Option.map_some]

/-- Nothing but its own units is decoded to a text. -/
theorem encode_of_decode {us : List UInt16} {cs : List Char} (h : decode us = some cs) :
    encode cs = us := by
  fun_induction decode us generalizing cs with
  | case1 =>
    cases h
    rfl
  | case2 => cases h
  | case3 u hu =>
    cases h
    rw [Bool.or_eq_true, not_or, Bool.not_eq_true, Bool.not_eq_true] at hu
    rw [encode_cons, units_ofNat hu.1 hu.2]
    rfl
  | case4 u v us hu hv ih =>
    obtain ⟨cs, hcs, rfl⟩ := Option.map_eq_some_iff.1 h
    rw [encode_cons, units_pairChar hu hv, ih hcs]
    rfl
  | case5 => cases h
  | case6 => cases h
  | case7 u v us hu hl ih =>
    obtain ⟨cs, hcs, rfl⟩ := Option.map_eq_some_iff.1 h
    rw [Bool.not_eq_true] at hu hl
    rw [encode_cons, units_ofNat hu hl, ih hcs]
    rfl

/-! ## Lone surrogates -/

/-- A unit in front changes nothing but for a low surrogate right behind it. -/
theorem loneAt_cons_succ {u : UInt16} {us : List UInt16} {i : Nat}
    (h : isHigh u = false ∨ 0 < i) : LoneAt (u :: us) (i + 1) ↔ LoneAt us i := by
  unfold LoneAt
  simp only [List.getElem?_cons_succ]
  refine exists_congr fun w => and_congr_right fun _ => or_congr_right (and_congr_right fun _ => ?_)
  constructor
  · intro hlone j v hj hv
    exact hlone (j + 1) v (congrArg (· + 1) hj) hv
  · intro hlone j v hj hv
    cases j with
    | zero =>
      obtain rfl : u = v := Option.some.inj hv
      exact h.resolve_right (by omega)
    | succ j => exact hlone j v (Nat.succ.inj hj) hv

theorem loneAt_zero_of_isLow {u : UInt16} (h : isLow u = true) (us : List UInt16) :
    LoneAt (u :: us) 0 :=
  ⟨u, rfl, .inr ⟨h, fun _ _ hj => absurd hj (Nat.succ_ne_zero _)⟩⟩

theorem loneAt_zero_of_isHigh {u : UInt16} (h : isHigh u = true) {us : List UInt16}
    (hnext : ∀ v, us.head? = some v → isLow v = false) : LoneAt (u :: us) 0 :=
  ⟨u, rfl, .inl ⟨h, fun v hv => hnext v (by rwa [List.head?_eq_getElem?])⟩⟩

theorem paired_nil : Paired [] := by
  rintro i ⟨u, hu, -⟩
  cases hu

/-- What is no surrogate can be left out. -/
theorem paired_cons {u : UInt16} (hh : isHigh u = false) (hl : isLow u = false)
    (us : List UInt16) : Paired (u :: us) ↔ Paired us := by
  refine ⟨fun h i hi => h (i + 1) ((loneAt_cons_succ (.inl hh)).2 hi), fun h i hi => ?_⟩
  cases i with
  | zero =>
    obtain ⟨w, hw, hlone⟩ := hi
    obtain rfl : u = w := Option.some.inj hw
    rcases hlone with ⟨hhigh, -⟩ | ⟨hlow, -⟩
    · exact absurd hhigh (Bool.eq_false_iff.1 hh)
    · exact absurd hlow (Bool.eq_false_iff.1 hl)
  | succ i => exact h i ((loneAt_cons_succ (.inl hh)).1 hi)

/-- So can a pair. -/
theorem paired_pair {u v : UInt16} (hu : isHigh u = true) (hv : isLow v = true)
    (us : List UInt16) : Paired (u :: v :: us) ↔ Paired us := by
  have hshift (i : Nat) : LoneAt (u :: v :: us) (i + 2) ↔ LoneAt us i :=
    (loneAt_cons_succ (.inr (Nat.succ_pos i))).trans
      (loneAt_cons_succ (.inl (isHigh_of_isLow hv)))
  refine ⟨fun h i hi => h (i + 2) ((hshift i).2 hi), fun h i hi => ?_⟩
  obtain ⟨w, hw, hlone⟩ := hi
  match i with
  | 0 =>
    obtain rfl : u = w := Option.some.inj hw
    rcases hlone with ⟨-, hnext⟩ | ⟨hlow, -⟩
    · exact absurd hv (Bool.eq_false_iff.1 (hnext v rfl))
    · exact absurd hu (Bool.eq_false_iff.1 (isHigh_of_isLow hlow))
  | 1 =>
    obtain rfl : v = w := Option.some.inj hw
    rcases hlone with ⟨hhigh, -⟩ | ⟨-, hbefore⟩
    · exact absurd hhigh (Bool.eq_false_iff.1 (isHigh_of_isLow hv))
    · exact absurd hu (Bool.eq_false_iff.1 (hbefore 0 u rfl rfl))
  | i + 2 => exact h i ((hshift i).1 ⟨w, hw, hlone⟩)

theorem exists_decode_iff (us : List UInt16) : (∃ cs, decode us = some cs) ↔ Paired us := by
  have hmap {f : List Char → List Char} {r : Option (List Char)} :
      (∃ cs, r.map f = some cs) ↔ ∃ cs, r = some cs := by
    cases r <;> simp
  have hnone {us : List UInt16} (h : LoneAt us 0) :
      (∃ cs, (none : Option (List Char)) = some cs) ↔ Paired us :=
    iff_of_false (fun ⟨_, he⟩ => nomatch he) fun hp => hp 0 h
  fun_induction decode us with
  | case1 => exact iff_of_true ⟨[], rfl⟩ paired_nil
  | case2 u hu =>
    rcases Bool.or_eq_true_iff.1 hu with hu | hu
    · exact hnone (loneAt_zero_of_isHigh hu nofun)
    · exact hnone (loneAt_zero_of_isLow hu [])
  | case3 u hu =>
    rw [Bool.or_eq_true, not_or, Bool.not_eq_true, Bool.not_eq_true] at hu
    exact iff_of_true ⟨_, rfl⟩ ((paired_cons hu.1 hu.2 []).2 paired_nil)
  | case4 u v us hu hv ih => exact (hmap.trans ih).trans (paired_pair hu hv us).symm
  | case5 u v us hu hv =>
    apply hnone (loneAt_zero_of_isHigh hu _)
    rintro _ ⟨⟩
    exact Bool.eq_false_iff.2 hv
  | case6 u v us _ hu => exact hnone (loneAt_zero_of_isLow hu _)
  | case7 u v us hh hl ih =>
    rw [Bool.not_eq_true] at hh hl
    exact (hmap.trans ih).trans (paired_cons hh hl _).symm

/-! ## Paths -/

theorem ne_zero_of_mem_units {c : Char} (hc : c ≠ '\x00') {u : UInt16} (hu : u ∈ units c) :
    u ≠ 0 := by
  rintro rfl
  obtain ⟨v, hunits, -, -, hv⟩ | ⟨v, w, hunits, hv, hw, -⟩ := units_cases c
  · rw [hunits, List.mem_singleton] at hu
    exact hc (by rw [← hv, ← hu]; rfl)
  · rw [hunits, List.mem_cons, List.mem_singleton] at hu
    rcases hu with rfl | rfl
    · cases hv
    · cases hw

/-- The units of a text without a zero are all that is seen before one. -/
theorem visible_encode_append {cs : List Char} (hcs : '\x00' ∉ cs) {z : List UInt16}
    (hz : ∀ u, z.head? = some u → u = 0) : visible (encode cs ++ z) = encode cs := by
  have hall : ∀ u ∈ encode cs, (u != 0) = true := by
    intro u hu
    obtain ⟨c, hc, hmem⟩ := List.mem_flatMap.1 hu
    exact bne_iff_ne.2 (ne_zero_of_mem_units (fun he => hcs (he ▸ hc)) hmem)
  have hnone : z.takeWhile (· != 0) = [] := by
    cases z with
    | nil => rfl
    | cons u z =>
      obtain rfl : u = 0 := hz u rfl
      rfl
  rw [visible, List.takeWhile_append_of_pos hall, hnone, List.append_nil]

/-- Whatever is opened by a wide path is opened by a plain one. -/
structure OpensAs (us : List UInt16) (path : String) : Prop where
  device : ∀ disk mode disposition,
    FileDevice.openWide disk us mode disposition = FileDevice.openPath disk path mode disposition
  buffered : ∀ (c : Buffered FileDevice) disk mode disposition,
    c.openWide disk us mode disposition = c.openFile disk path mode disposition
  mapped : ∀ (c : Mapped) mode keepPrivate,
    c.openWide (toPath us) mode keepPrivate = c.openPath path mode keepPrivate

theorem opensAs_of_toPath {us : List UInt16} {path : String} (h : toPath us = .ok path) :
    OpensAs us path where
  device disk mode disposition := by rw [FileDevice.openWide, h]
  buffered c disk mode disposition := by
    rw [Buffered.openWide, h, Buffered.openFile]
    exact ite_congr rfl (fun _ => rfl) fun hopen => if_neg hopen
  mapped c mode keepPrivate := by
    cases hr : c.refusal? mode <;> simp only [Mapped.openWide, Mapped.openPath, hr, h]

/-- A text without a zero is read from its own units, whatever stands behind a zero, and opens what
it opens as a plain path. Any units are refused exactly if a surrogate in front of the first zero
stands alone there, and otherwise are those of the path that they are read as, up to the zero. -/
theorem toPath_exact :
    (∀ (s : String) (z : List UInt16), '\x00' ∉ s.toList → (∀ u, z.head? = some u → u = 0) →
      toPath (encode s.toList ++ z) = .ok s ∧ OpensAs (encode s.toList ++ z) s) ∧
    ∀ us : List UInt16,
      (toPath us = .error (.invalidPath "invalid utf-16: lone surrogate found") ↔
        ∃ i, LoneAt (visible us) i) ∧
      ((∀ i, ¬LoneAt (visible us) i) →
        ∃ path, toPath us = .ok path ∧ encode path.toList = visible us ∧ OpensAs us path) := by
  refine ⟨fun s z hs hz => ?_, fun us => ?_⟩
  · have hpath : toPath (encode s.toList ++ z) = .ok s := by
      rw [toPath, visible_encode_append hs hz, decode_encode]
      exact congrArg Except.ok String.ofList_toList
    exact ⟨hpath, opensAs_of_toPath hpath⟩
  · have hdecodes := exists_decode_iff (visible us)
    cases hd : decode (visible us) with
    | none =>
      have hlone : ¬Paired (visible us) := fun hp => by
        obtain ⟨cs, hcs⟩ := hdecodes.2 hp
        rw [hd] at hcs
        cases hcs
      have hpath : toPath us = .error (.invalidPath "invalid utf-16: lone surrogate found") := by
        rw [toPath, hd]
      exact ⟨iff_of_true hpath (by simpa [Paired] using hlone), fun hp => absurd hp hlone⟩
    | some cs =>
      have hpaired : Paired (visible us) := hdecodes.1 ⟨cs, hd⟩
      have hpath : toPath us = .ok (String.ofList cs) := by rw [toPath, hd]
      refine ⟨iff_of_false (by rw [hpath]; nofun) fun ⟨i, hi⟩ => hpaired i hi, fun _ => ?_⟩
      refine ⟨_, hpath, ?_, opensAs_of_toPath hpath⟩
      rw [String.toList_ofList, encode_of_decode hd]

/-- A name beyond the basic plane in front of a zero, and one with a high surrogate that the zero
cuts off. -/
theorem toPath_exact_cut :
    toPath (encode "a😀".toList ++ [0, 0xDC00]) = .ok "a😀" ∧
      toPath [0x61, 0xD83D, 0xDE00] = .ok "a😀" ∧
      toPath [0x61, 0xD83D, 0, 0xDE00] =
        .error (.invalidPath "invalid utf-16: lone surrogate found") := by
  obtain ⟨hreads, hexact⟩ := toPath_exact
  refine ⟨(hreads "a😀" [0, 0xDC00] (by decide) (by rintro _ ⟨⟩; rfl)).1, ?_, ?_⟩
  · exact (hreads "a😀" [] (by decide) nofun).1
  · refine (hexact _).1.2 ⟨1, 0xD83D, rfl, .inl ⟨rfl, ?_⟩⟩
    nofun

end ByteChannel.WidePath
