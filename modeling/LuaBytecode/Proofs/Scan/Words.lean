import LuaBytecode.Proofs.Scan.Inner
import LuaBytecode.Proofs.Scan.Reading

/-!
# Blocks of words

A block is divided into words of one size if it is a whole number of them, and the division loses
nothing: the words, written one after another, are the block again. A block of words that is read
whole and then divided is therefore recognized as what is read word by word.
-/

namespace LuaBytecode

namespace Bytes

/-! ### Division of a block -/

variable {size count : Nat} {block : Bytes}

theorem length_flatMap_ofLittleEndian (size : Nat) (ns : List Nat) :
    (ns.flatMap (ofLittleEndian size)).length = ns.length * size := by
  induction ns with
  | nil => exact (Nat.zero_mul size).symm
  | cons n rest ih =>
    rw [List.flatMap_cons, List.length_append, length_ofLittleEndian, ih, List.length_cons,
      Nat.succ_mul, Nat.add_comm]

theorem groups_flatMap (size : Nat) (ns : List Nat) :
    groups size ns.length (ns.flatMap (ofLittleEndian size)) = ns.map (ofLittleEndian size) := by
  induction ns with
  | nil => rfl
  | cons n rest ih =>
    have hn := length_ofLittleEndian size n
    rw [List.length_cons, groups, List.flatMap_cons, List.take_left' hn, List.drop_left' hn, ih,
      List.map_cons]

/-- A block as long as so many words is what those words are written as. -/
theorem exists_numbers (h : block.length = count * size) : ∃ ns : List Nat, ns.length = count ∧
    (∀ n ∈ ns, n < 256 ^ size) ∧ block = ns.flatMap (ofLittleEndian size) := by
  induction count generalizing block with
  | zero =>
    have hnil : block = [] := List.length_eq_zero_iff.mp (h.trans (Nat.zero_mul size))
    exact ⟨[], rfl, fun n hn => absurd hn List.not_mem_nil, hnil⟩
  | succ count ih =>
    rw [Nat.succ_mul] at h
    obtain ⟨ns, hcount, hns, hrest⟩ := @ih (block.drop size) (by rw [List.length_drop]; omega)
    have hlength : (block.take size).length = size := List.length_take_of_le (by omega)
    refine ⟨littleEndian (block.take size) :: ns, ?_, ?_, ?_⟩
    · rw [List.length_cons, hcount]
    · exact List.forall_mem_cons.mpr ⟨littleEndian_lt_of_length hlength, hns⟩
    · rw [List.flatMap_cons, ofLittleEndian_of_length hlength, ← hrest, List.take_append_drop]

theorem words_flatMap {ns : List Nat} (hsize : 0 < size) (hns : ∀ n ∈ ns, n < 256 ^ size) :
    words (ns.flatMap (ofLittleEndian size)) size = .ok ns := by
  have hlength := length_flatMap_ofLittleEndian size ns
  have hmod : (ns.flatMap (ofLittleEndian size)).length % (size : Int).toNat = 0 := by
    rw [hlength, Int.toNat_natCast, Nat.mul_mod_left]
  have hdiv : (ns.flatMap (ofLittleEndian size)).length / size = ns.length := by
    rw [hlength, Nat.mul_div_cancel _ hsize]
  have hnumbers : (ns.map (ofLittleEndian size)).map littleEndian = ns := by
    rw [List.map_map]
    exact (List.map_congr_left fun n hn => littleEndian_of_lt (hns n hn)).trans (List.map_id ns)
  rw [words, if_pos ⟨Int.natCast_pos.mpr hsize, hmod⟩, Int.toNat_natCast, hdiv, groups_flatMap,
    hnumbers]

theorem words_of_not_dvd (h : ¬size ∣ block.length) :
    block.words size = .error (.unevenBlock block.length size) := by
  apply if_neg
  intro hwhole
  exact h (Nat.dvd_of_mod_eq_zero hwhole.2)

/-- The words of a block are the numbers of that size that the block is written from. -/
theorem exists_words_of_dvd (hsize : 0 < size) (h : size ∣ block.length) : ∃ ns : List Nat,
    block.words size = .ok ns ∧ ns.length = block.length / size ∧ (∀ n ∈ ns, n < 256 ^ size) ∧
      ns.flatMap (ofLittleEndian size) = block := by
  obtain ⟨ns, hcount, hns, hblock⟩ := exists_numbers (Nat.div_mul_cancel h).symm
  exact ⟨ns, hblock ▸ words_flatMap hsize hns, hcount, hns, hblock.symm⟩

end Bytes

namespace Scan

variable {α : Type}

/-! ### Blocks and single words -/

/-- So many words of four bytes, read as one block. -/
def readBlock (count : Nat) (field : Option Text) : Scan (List Nat) := do
  let block ← readBytes (count * 4 : Nat) field
  liftResult (block.words 4)

theorem count_repeated_iff {count : Nat} {word : Bytes} {ns : List Nat} :
    (Format.count.repeated count).language word ns ↔
      ns.length = count ∧ (∀ n ∈ ns, n < 256 ^ 4) ∧ word = ns.flatMap (Bytes.ofLittleEndian 4) := by
  have hvalue : ∀ ms : List Nat, ms.mapM Format.count.value? = some ms := fun ms =>
    List.mapM_pure.trans (congrArg some (List.map_id ms))
  constructor
  · intro h
    obtain ⟨ms, ⟨hcount, hfits⟩, hns, hword⟩ := h
    obtain rfl := Option.some.inj ((hvalue ms).symm.trans hns)
    exact ⟨hcount, hfits, hword⟩
  · intro h
    obtain ⟨hcount, hfits, hword⟩ := h
    exact ⟨ns, ⟨hcount, hfits⟩, hvalue ns, hword⟩

theorem recognizes_liftResult (r : Except Fault α) :
    (liftResult r).Recognizes fun word a => word = [] ∧ r = .ok a := by
  cases r with
  | ok a => exact (recognizes_pure a).congr fun word b => and_congr_right' (by simp [eq_comm])
  | error f => exact (recognizes_fail f).congr fun word b => by simp

theorem recognizes_readBlock (count : Nat) (field : Option Text) :
    (readBlock count field).Recognizes (Format.count.repeated count).language := by
  refine ((recognizes_readBytes (count * 4) field).bind fun block =>
    recognizes_liftResult (block.words 4)).congr fun word ns => ?_
  rw [count_repeated_iff]
  constructor
  · intro h
    obtain ⟨_, block, _, ⟨hlength, rfl⟩, ⟨rfl, hwords⟩, rfl⟩ := h
    obtain ⟨ms, hcount, hfits, rfl⟩ := Bytes.exists_numbers hlength
    obtain rfl := Except.ok.inj ((Bytes.words_flatMap (by decide) hfits).symm.trans hwords)
    exact ⟨hcount, hfits, List.append_nil _⟩
  · intro h
    obtain ⟨rfl, hfits, rfl⟩ := h
    exact ⟨_, _, [], ⟨Bytes.length_flatMap_ofLittleEndian 4 ns, rfl⟩,
      ⟨rfl, Bytes.words_flatMap (by decide) hfits⟩, (List.append_nil _).symm⟩

/-- Scans of one language accept the same inside the data. -/
theorem Recognizes.accepts_iff {s t : Scan α} {L : Language α} (hs : s.Recognizes L)
    (ht : t.Recognizes L) {data : Bytes} {start next : Int} {a : α} (h : Inside data start) :
    s.Accepts data start a next ↔ t.Accepts data start a next := by
  obtain ⟨before, after, rfl, rfl⟩ := h.exists_append
  rw [hs, ht]

/-- As many bytes as the words have are there if and only if the block is read. -/
theorem exists_readBlock_iff {data : Bytes} {start : Int} (h : Inside data start) (count : Nat)
    (field : Option Text) :
    (∃ ns next, (readBlock count field).Accepts data start ns next) ↔
      start + (count * 4 : Nat) ≤ data.length := by
  obtain ⟨before, after, rfl, rfl⟩ := h.exists_append
  simp only [recognizes_readBlock count field before after, count_repeated_iff]
  rw [List.length_append]
  constructor
  · intro hread
    obtain ⟨ns, _, word, rest, rfl, _, hcount, _, rfl⟩ := hread
    rw [List.length_append, Bytes.length_flatMap_ofLittleEndian, hcount]
    omega
  · intro hlength
    have hblock : (after.take (count * 4)).length = count * 4 := List.length_take_of_le (by omega)
    obtain ⟨ns, hcount, hfits, hwords⟩ := Bytes.exists_numbers hblock
    exact ⟨ns, _, after.take (count * 4), after.drop (count * 4),
      (List.take_append_drop _ after).symm, rfl, hcount, hfits, hwords⟩

/-- Inside the data a block of words is read if and only if its words are read one by one, with the
same words and the same end, and both if and only if so many bytes are there. A block is divided
into words of one size if and only if it is a whole number of them, and then these words, written
one after another, are the block. -/
theorem words_one_by_one (data : Bytes) :
    (∀ (start : Int) (count : Nat) (field : Option Text), Inside data start →
      (∀ ns next, (readBlock count field).Accepts data start ns next ↔
        (times count (readU32 field)).Accepts data start ns next) ∧
      ((∃ ns next, (readBlock count field).Accepts data start ns next) ↔
        start + (count * 4 : Nat) ≤ data.length)) ∧
    ∀ size : Nat, 0 < size →
      (¬size ∣ data.length → data.words size = .error (.unevenBlock data.length size)) ∧
      (size ∣ data.length → ∃ ns, data.words size = .ok ns ∧ ns.length = data.length / size ∧
        (∀ n ∈ ns, n < 256 ^ size) ∧ ns.flatMap (Bytes.ofLittleEndian size) = data) := by
  refine ⟨fun start count field h => ⟨fun ns next => ?_, exists_readBlock_iff h count field⟩,
    fun size hsize => ⟨Bytes.words_of_not_dvd, Bytes.exists_words_of_dvd hsize⟩⟩
  exact (recognizes_readBlock count field).accepts_iff ((recognizes_readCount field).times count) h

/-- Nine bytes: two words of four bytes after the first byte, or three words of three bytes. -/
def nineBytes : Bytes := [0x01, 0x02, 0x00, 0x00, 0xFF, 0xFF, 0xFF, 0xFF, 0x07]

theorem words_one_by_one_nineBytes :
    Inside nineBytes 1 ∧ ¬4 ∣ nineBytes.length ∧ 3 ∣ nineBytes.length ∧
      (times 2 (readU32 none)).Accepts nineBytes 1 [0xFF000002, 0x07FFFFFF] 9 ∧
      nineBytes.words 4 = .error (.unevenBlock 9 4) ∧
      ∃ ns, nineBytes.words 3 = .ok ns ∧ ns.length = 3 ∧ (∀ n ∈ ns, n < 256 ^ 3) ∧
        ns.flatMap (Bytes.ofLittleEndian 3) = nineBytes := by
  have hinside : Inside nineBytes 1 := ⟨by decide, by decide⟩
  have huneven : ¬4 ∣ nineBytes.length := by decide
  have heven : 3 ∣ nineBytes.length := by decide
  have hblock : (readBlock 2 none).Accepts nineBytes 1 [0xFF000002, 0x07FFFFFF] 9 := ⟨rfl, rfl⟩
  obtain ⟨hscans, hdivides⟩ := words_one_by_one nineBytes
  exact ⟨hinside, huneven, heven, ((hscans 1 2 none hinside).1 _ _).mp hblock,
    (hdivides 4 (by decide)).1 huneven, (hdivides 3 (by decide)).2 heven⟩

end Scan

end LuaBytecode
