import LuaBytecode.Proofs.Scan.Reading

/-!
# Two checks of the bounds

Whether bytes are there is checked in two ways: a reader that passes over bytes compares their count
with what is left, and the read of a number compares both ends of its span with those of the data.
From an offset that is not below zero the two checks agree, and what they let through is whole. Below
zero the second check refuses everything, but what is left counts bytes that lie before the data, so
that the first lets a read pass that is not whole or comes from the end of the data.
-/

namespace LuaBytecode

namespace Bytes

theorem position_le (length : Nat) (index : Int) : position length index ≤ length := by
  rw [position]
  split <;> omega

theorem length_slice (data : Bytes) (start stop : Int) :
    (data.slice start stop).length =
      position data.length stop - position data.length start := by
  have hstop := position_le data.length stop
  rw [slice, List.length_take, List.length_drop]
  omega

/-- A span that does not reach beyond the data is whole if it starts inside. If it starts before, it
is whole only if it is empty, or if all of it counts from the end of the data. -/
theorem length_slice_eq_iff {data : Bytes} {start : Int} {size : Nat}
    (h : start + size ≤ data.length) : (data.slice start (start + size)).length = size ↔
      0 ≤ start ∨ size = 0 ∨ (0 ≤ data.length + start ∧ start + size < 0) := by
  rw [length_slice, position, position]
  split <;> split <;> omega

end Bytes

namespace Scan

variable {α : Type} {data : Bytes} {offset size : Int} {field : Option Text}

/-! ### Which reads are refused -/

/-- The result is that bytes are missing. -/
def Truncated (r : Except Fault α) : Prop := ∃ e, r = .error (.decode e) ∧ e.kind = .truncatedInput

theorem not_truncated_ok (a : α) : ¬Truncated (.ok a : Except Fault α) := by
  intro h
  obtain ⟨e, he, _⟩ := h
  cases he

theorem truncated_require_bind_iff {k : Unit → Scan α} {a : α}
    (hk : (k () data offset).result = .ok a) :
    Truncated ((require size field >>= k) data offset).result ↔ data.length < offset + size := by
  rw [require_bind_run]
  by_cases hfits : offset + size ≤ data.length
  · rw [if_pos hfits, hk]
    exact iff_of_false (not_truncated_ok a) (Int.not_lt.mpr hfits)
  · rw [if_neg hfits]
    exact iff_of_true ⟨_, rfl, rfl⟩ (Int.not_le.mp hfits)

theorem truncated_require_iff :
    Truncated (require size field data offset).result ↔ data.length < offset + size := by
  rw [← bind_pure (require size field)]
  exact truncated_require_bind_iff rfl

theorem truncated_skip_iff :
    Truncated (skip size field data offset).result ↔ data.length < offset + size :=
  truncated_require_bind_iff rfl

theorem truncated_readBytes_iff :
    Truncated (readBytes size field data offset).result ↔ data.length < offset + size :=
  truncated_require_bind_iff rfl

theorem readBytes_run (h : offset + size ≤ data.length) :
    readBytes size field data offset =
      ⟨.ok (data.slice offset (offset + size)), offset + size, []⟩ :=
  (require_bind_run data offset size field _).trans (if_pos h)

theorem readBytes_eq_ok_iff {found : Bytes} :
    (readBytes size field data offset).result = .ok found ↔
      offset + size ≤ data.length ∧ data.slice offset (offset + size) = found := by
  by_cases hfits : offset + size ≤ data.length
  · rw [readBytes_run hfits, and_iff_right hfits, Except.ok.injEq]
  · obtain ⟨e, he, _⟩ : Truncated (readBytes size field data offset).result :=
      truncated_readBytes_iff.mpr (Int.not_le.mp hfits)
    rw [he]
    exact iff_of_false (fun h => by cases h) fun h => hfits h.1

theorem truncated_number_iff :
    Truncated ((data.numberAt offset size field).mapError Fault.decode) ↔
      offset < 0 ∨ data.length < offset + size := by
  rw [Bytes.numberAt, Bytes.checkSpan]
  by_cases hspan : offset < 0 ∨ data.length < offset + size
  · rw [if_pos hspan]
    exact iff_of_true ⟨_, rfl, rfl⟩ hspan
  · rw [if_neg hspan]
    exact iff_of_false (not_truncated_ok _) hspan

theorem numberAt_of_span (hstart : 0 ≤ offset) (h : offset + size ≤ data.length) :
    data.numberAt offset size field =
      .ok (Bytes.littleEndian (data.slice offset (offset + size))) := by
  rw [Bytes.numberAt, Bytes.checkSpan, if_neg (by omega)]
  rfl

/-! ### Where the checks agree -/

/-- Demanding, passing over and reading so many bytes are refused in the same cases. The read of the
bytes and that of their number are refused together unless the span starts before the data and does
not reach beyond it. What the read of the number lets through the read of the bytes gives whole, and
the number is that of these bytes. Too few bytes are given if and only if the span starts before the
data and does not reach beyond it, is not empty, and does not lie where all of it counts from the end
of the data. -/
theorem bounds_checks_agree_iff (data : Bytes) (offset : Int) (size : Nat)
    (field field' : Option Text) :
    (Truncated (skip size field data offset).result ↔
      Truncated (require size field data offset).result) ∧
    (Truncated (readBytes size field data offset).result ↔
      Truncated (require size field data offset).result) ∧
    ((Truncated (readBytes size field data offset).result ↔
        Truncated ((data.numberAt offset size field').mapError Fault.decode)) ↔
      ¬(offset < 0 ∧ offset + size ≤ data.length)) ∧
    (Truncated ((data.numberAt offset size field').mapError Fault.decode) ∨
      ∃ found : Bytes, readBytes size field data offset = ⟨.ok found, offset + size, []⟩ ∧
        found.length = size ∧ data.numberAt offset size field' = .ok (Bytes.littleEndian found)) ∧
    ((∃ found : Bytes, (readBytes size field data offset).result = .ok found ∧
        found.length ≠ size) ↔
      (offset < 0 ∧ offset + size ≤ data.length) ∧ 0 < size ∧
        (data.length + offset < 0 ∨ 0 ≤ offset + size)) := by
  rw [truncated_skip_iff, truncated_require_iff, truncated_readBytes_iff, truncated_number_iff]
  refine ⟨Iff.rfl, Iff.rfl, by omega, ?_, ?_⟩
  · by_cases hspan : offset < 0 ∨ data.length < offset + size
    · exact .inl hspan
    · have hfits : offset + size ≤ data.length := by omega
      have hstart : 0 ≤ offset := by omega
      exact .inr ⟨_, readBytes_run hfits, (Bytes.length_slice_eq_iff hfits).mpr (.inl hstart),
        numberAt_of_span hstart hfits⟩
  · simp only [readBytes_eq_ok_iff]
    constructor
    · intro h
      obtain ⟨_, ⟨hfits, rfl⟩, hpartial⟩ := h
      rw [Ne, Bytes.length_slice_eq_iff hfits] at hpartial
      omega
    · intro h
      obtain ⟨⟨hstart, hfits⟩, hsize, hplace⟩ := h
      refine ⟨_, ⟨hfits, rfl⟩, ?_⟩
      rw [Ne, Bytes.length_slice_eq_iff hfits]
      omega

/-- A byte from one place before the data: the read of its number is refused, and the read of the
byte succeeds with none. -/
theorem bounds_checks_disagree_before_data :
    ¬(Truncated (readBytes 1 none [0x61, 0x62] (-1)).result ↔
      Truncated ((Bytes.numberAt [0x61, 0x62] (-1) 1 none).mapError Fault.decode)) ∧
    (readBytes 1 none [0x61, 0x62] (-1)).result = .ok [] := by
  rw [truncated_readBytes_iff, truncated_number_iff]
  exact ⟨by decide, rfl⟩

end Scan

end LuaBytecode
