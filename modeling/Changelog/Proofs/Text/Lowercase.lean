import Changelog.Text.Lowercase

/-! # Lower case stays lower case

A character of a text in lower case is its own lower-case form wherever it stands, so putting a text into lower
case twice is the same as doing it once. For the characters outside the basic alphabet this is read off the
table: no image of a row is in a row.
-/

namespace Changelog.Text

/-- A row of the table: first and last code point, the step between code points, and the image of the first. -/
abbrev CaseRow := Nat × Nat × Nat × Nat

namespace CaseRow

def covers (row : CaseRow) (n : Nat) : Bool := Nat.ble row.1 n && (Nat.ble n row.2.1 && Nat.beq ((n - row.1) % row.2.2.1) 0)

def images (row : CaseRow) : List Nat :=
  (List.range ((row.2.1 - row.1) / row.2.2.1 + 1)).map fun k => row.2.2.2 + k * row.2.2.1

def avoids (low high : Nat) (points : List Nat) (row : CaseRow) : Bool :=
  Nat.blt high row.1 || (Nat.blt row.2.1 low || points.all fun n => !row.covers n)

theorem not_covers_of_avoids {low high n : Nat} {points : List Nat} {row : CaseRow} (h : row.avoids low high points)
    (hlow : low ≤ n) (hhigh : n ≤ high) (hn : n ∈ points) : row.covers n = false := by
  simp only [avoids, Bool.or_eq_true, Nat.blt_eq, List.all_eq_true] at h
  rcases h with h | h | h
  · have : Nat.ble row.1 n = false := by
      rw [← Bool.not_eq_true, Nat.ble_eq]
      omega
    simp [covers, this]
  · have : Nat.ble n row.2.1 = false := by
      rw [← Bool.not_eq_true, Nat.ble_eq]
      omega
    simp [covers, this]
  · simpa using h n hn

theorem image_mem {row : CaseRow} {n : Nat} (h : row.covers n) :
    row.2.2.2 + (n - row.1) ∈ row.images ∧ row.2.2.2 + (n - row.1) ≤ row.2.2.2 + (row.2.1 - row.1) := by
  obtain ⟨first, last, step, image⟩ := row
  simp only [covers, Bool.and_eq_true, Nat.ble_eq, Nat.beq_eq] at h
  obtain ⟨hfirst, hlast, hstep⟩ := h
  simp only [images, List.mem_map, List.mem_range]
  refine ⟨⟨(n - first) / step, Nat.lt_succ_of_le (Nat.div_le_div_right (Nat.sub_le_sub_right hlast first)), ?_⟩, ?_⟩
  · have := Nat.div_add_mod' (n - first) step
    omega
  · omega

end CaseRow

/-- Is the code point, outside the basic alphabet, its own lower-case form? -/
def isOwnForm (n : Nat) : Bool := n != 0x130 && n != 0x3a3 && lowercaseRows.all fun row => !CaseRow.covers row n

def isSettled (n : Nat) : Bool := if n < 128 then !('A'.toNat ≤ n && n ≤ 'Z'.toNat) else isOwnForm n

theorem avoids_images : ∀ row ∈ lowercaseRows, ∀ other ∈ lowercaseRows,
    CaseRow.avoids row.2.2.2 (row.2.2.2 + (row.2.1 - row.1)) (CaseRow.images row) other := by
  have : (lowercaseRows.all fun row => lowercaseRows.all
      (CaseRow.avoids row.2.2.2 (row.2.2.2 + (row.2.1 - row.1)) (CaseRow.images row))) = true := by decide +kernel
  intro row hrow other hother
  exact List.all_eq_true.mp (List.all_eq_true.mp this row hrow) other hother

theorem image_plain : ∀ row ∈ lowercaseRows, ∀ n ∈ CaseRow.images row,
    (decide n.isValidChar && (Nat.ble 91 n && (!Nat.beq n 0x130 && !Nat.beq n 0x3a3))) = true := by
  have : (lowercaseRows.all fun row => (CaseRow.images row).all fun n =>
      decide n.isValidChar && (Nat.ble 91 n && (!Nat.beq n 0x130 && !Nat.beq n 0x3a3))) = true := by decide +kernel
  intro row hrow n hn
  exact List.all_eq_true.mp (List.all_eq_true.mp this row hrow) n hn

theorem toNat_ofNat {n : Nat} (valid : n.isValidChar) : (Char.ofNat n).toNat = n := by
  rw [Char.ofNat, dif_pos valid]
  rfl

theorem isSettled_ofNat {n : Nat} (valid : n.isValidChar) (h : isSettled n) : isSettled (Char.ofNat n).toNat := by
  rwa [toNat_ofNat valid]

theorem isSettled_image {row : CaseRow} (hrow : row ∈ lowercaseRows) {n : Nat} (h : row.covers n) :
    isSettled (Char.ofNat (row.2.2.2 + (n - row.1))).toNat := by
  obtain ⟨hmem, hhigh⟩ := CaseRow.image_mem h
  have plain := image_plain row hrow _ hmem
  simp only [Bool.and_eq_true, decide_eq_true_eq, Nat.ble_eq, Bool.not_eq_true', ← Bool.not_eq_true, Nat.beq_eq] at plain
  obtain ⟨valid, beyond, dotted, sigma⟩ := plain
  refine isSettled_ofNat valid ?_
  unfold isSettled
  split
  · simp only [Char.reduceToNat, Bool.not_eq_true', Bool.and_eq_false_iff, decide_eq_false_iff_not]
    omega
  · simp only [isOwnForm, Bool.and_eq_true, bne_iff_ne, ne_eq, List.all_eq_true, Bool.not_eq_true']
    refine ⟨⟨dotted, sigma⟩, ?_⟩
    intro other hother
    exact CaseRow.not_covers_of_avoids (avoids_images row hrow other hother) (Nat.le_add_right _ _) hhigh hmem

theorem covers_eq (first last step image n : Nat) : CaseRow.covers (first, last, step, image) n =
    (decide (first ≤ n) && decide (n ≤ last) && (n - first) % step == 0) := by
  rw [Bool.eq_iff_iff]
  simp [CaseRow.covers, and_assoc]

theorem isSettled_of_mem_lowercaseForm {c d : Char} (other : ¬c.toNat < 128) (sigma : ¬c.toNat = 0x3a3)
    (h : d ∈ lowercaseForm c) : isSettled d.toNat := by
  unfold lowercaseForm at h
  split at h
  next =>
    have small : ∀ x ∈ ['i', Char.ofNat 0x307], isSettled x.toNat := by decide +kernel
    exact small d h
  next dotted =>
    split at h
    next first last step image found =>
      obtain rfl := List.mem_singleton.mp h
      refine isSettled_image (List.mem_of_find?_eq_some found) ?_
      rw [covers_eq]
      simpa using List.find?_some found
    next none =>
      obtain rfl := List.mem_singleton.mp h
      rw [List.find?_eq_none] at none
      simp only [isSettled, if_neg other, isOwnForm, Bool.and_eq_true, bne_iff_ne, ne_eq, List.all_eq_true,
        Bool.not_eq_true']
      refine ⟨⟨by simpa using dotted, sigma⟩, ?_⟩
      rintro ⟨first, last, step, image⟩ hrow
      simpa only [covers_eq, Bool.not_eq_true] using none _ hrow

theorem isSettled_of_mem_lowercaseBetween {before after : Text} {c d : Char} (h : d ∈ lowercaseBetween before c after) :
    isSettled d.toNat := by
  unfold lowercaseBetween at h
  split at h
  next basic =>
    split at h
    next capital =>
      obtain rfl := List.mem_singleton.mp h
      simp only [Bool.and_eq_true, decide_eq_true_eq, Char.reduceToNat] at capital
      have valid : (c.toNat + 32).isValidChar := Or.inl (by omega)
      refine isSettled_ofNat valid ?_
      simp only [isSettled, Char.reduceToNat]
      rw [if_pos (by omega)]
      simp only [Bool.not_eq_true', Bool.and_eq_false_iff, decide_eq_false_iff_not]
      omega
    next small =>
      obtain rfl := List.mem_singleton.mp h
      simp only [isSettled, if_pos basic, Bool.not_eq_true']
      simpa only [Bool.not_eq_true] using small
  next other =>
    split at h
    next =>
      have small : ∀ x ∈ [Char.ofNat 0x3c2, Char.ofNat 0x3c3], isSettled x.toNat := by decide +kernel
      refine small d ?_
      split at h <;> simp_all
    next sigma => exact isSettled_of_mem_lowercaseForm other (by simpa using sigma) h

theorem isSettled_of_mem_lowercaseAfter {before text : Text} {d : Char} (h : d ∈ lowercaseAfter before text) :
    isSettled d.toNat := by
  induction text generalizing before with
  | nil => simp [lowercaseAfter] at h
  | cons c rest ih =>
      rcases List.mem_append.mp h with h | h
      · exact isSettled_of_mem_lowercaseBetween h
      · exact ih h

theorem lowercaseBetween_of_isSettled {c : Char} (h : isSettled c.toNat) (before after : Text) :
    lowercaseBetween before c after = [c] := by
  unfold lowercaseBetween
  split
  next basic =>
    simp only [isSettled, if_pos basic, Bool.not_eq_true'] at h
    rw [if_neg (by rw [h]; exact Bool.false_ne_true)]
  next other =>
    simp only [isSettled, if_neg other, isOwnForm, Bool.and_eq_true, bne_iff_ne, ne_eq, List.all_eq_true,
      Bool.not_eq_true'] at h
    obtain ⟨⟨dotted, sigma⟩, rows⟩ := h
    rw [if_neg (by simpa using sigma), lowercaseForm, if_neg (by simpa using dotted), List.find?_eq_none.mpr]
    rintro ⟨first, last, step, image⟩ hrow
    simpa only [covers_eq, Bool.not_eq_true] using rows _ hrow

theorem lowercaseAfter_of_isSettled {text : Text} (h : ∀ c ∈ text, isSettled c.toNat) (before : Text) :
    lowercaseAfter before text = text := by
  induction text generalizing before with
  | nil => rfl
  | cons c rest ih =>
      rw [lowercaseAfter, lowercaseBetween_of_isSettled (h c List.mem_cons_self),
        ih fun d hd => h d (List.mem_cons_of_mem c hd)]
      rfl

@[simp] theorem lowercase_lowercase (text : Text) : lowercase (lowercase text) = lowercase text :=
  lowercaseAfter_of_isSettled (fun _ h => isSettled_of_mem_lowercaseAfter h) []

end Changelog.Text
