import YieldLadder.Foundation.Decimal

/-! # Texts

A text is read by its code units where a program takes it for a number, and as a whole where it is a part
of a key. Parts that are joined by a separator come back out of the key as long as they do not hold it.
-/
namespace Foundation.EcmaScript

def codeUnits (text : String) : List ℕ :=
  text.toList.flatMap fun c =>
    if c.toNat < 0x10000 then [c.toNat]
    else [0xD800 + (c.toNat - 0x10000) / 0x400, 0xDC00 + (c.toNat - 0x10000) % 0x400]

/-- The text with the code units, where none of them is half a character. -/
def ofCodeUnits (units : List ℕ) : String := String.ofList (units.map Char.ofNat)

theorem codeUnits_ofCodeUnits {units : List ℕ} (h : ∀ unit ∈ units, unit < 0xD800) :
    codeUnits (ofCodeUnits units) = units := by
  rw [codeUnits, ofCodeUnits, String.toList_ofList, List.flatMap_map]
  induction units with
  | nil => rfl
  | cons unit units ih =>
    have hunit : unit < 0xD800 := h unit List.mem_cons_self
    have hchar : (Char.ofNat unit).toNat = unit := by
      rw [Char.ofNat, dif_pos (.inl hunit)]
      rfl
    rw [List.flatMap_cons, ih fun u hu => h u (List.mem_cons_of_mem _ hu), hchar, if_pos (hunit.trans (by decide))]
    rfl

theorem decimal_lt {n unit : ℕ} (h : unit ∈ decimal n) : unit < 0xD800 := by
  obtain ⟨c, hc, rfl⟩ := List.mem_map.mp h
  have hdigit := Nat.isDigit_of_mem_toDigits (by decide) (by decide) hc
  simp only [Char.isDigit, Bool.and_eq_true, decide_eq_true_eq] at hdigit
  have hle : c.toNat ≤ 0x39 := hdigit.2
  omega

theorem ofCodeUnits_bigIntToString_inj {x y : ℤ} :
    ofCodeUnits (bigIntToString x) = ofCodeUnits (bigIntToString y) ↔ x = y := by
  have hread : ∀ x, codeUnits (ofCodeUnits (bigIntToString x)) = bigIntToString x := by
    intro x
    apply codeUnits_ofCodeUnits
    intro unit hunit
    cases x with
    | ofNat n => exact decimal_lt hunit
    | negSucc n =>
      rcases List.mem_cons.mp hunit with rfl | hunit
      · decide
      · exact decimal_lt hunit
  refine ⟨fun h => bigIntToString_injective ?_, fun h => h ▸ rfl⟩
  rw [← hread x, ← hread y, h]

theorem separated_inj {α : Type} {c : α} {s s' t t' : List α} (hs : c ∉ s) (hs' : c ∉ s') :
    s ++ c :: t = s' ++ c :: t' ↔ s = s' ∧ t = t' := by
  induction s generalizing s' with
  | nil =>
    cases s' with
    | nil => simp
    | cons b s' =>
      have hne : c ≠ b := fun h => hs' (h ▸ List.mem_cons_self)
      simp [hne]
  | cons a s ih =>
    cases s' with
    | nil =>
      have hne : a ≠ c := fun h => hs (h ▸ List.mem_cons_self)
      simp [hne]
    | cons b s' =>
      have hrest := ih (fun h => hs (List.mem_cons_of_mem a h)) fun h => hs' (List.mem_cons_of_mem b h)
      simp [hrest, and_assoc]

end Foundation.EcmaScript
