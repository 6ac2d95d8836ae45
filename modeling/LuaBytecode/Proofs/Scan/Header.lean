import LuaBytecode.Proofs.Decoder.Simulation

/-!
# Headers that are refused

After the signature the bytes of a header are read one after another, each against the values that it
may have. The first that is missing or has another value ends the scan, which tells its place and its
name. The bytes after it have no part in that.
-/

namespace LuaBytecode

/-- From an offset on the slice is what is left of the data, cut to its length; past the end there is
nothing left. -/
theorem Bytes.slice_natCast (data : Bytes) (start size : Nat) :
    data.slice start ((start : Int) + size) = (data.drop start).take size := by
  by_cases hinside : start ≤ data.length
  · have happend := Scan.slice_append (data.take start) (data.drop start) size
    rwa [List.take_append_drop, List.length_take_of_le hinside] at happend
  · have hstart : position data.length start = data.length := by
      rw [position, if_neg (by omega)]
      omega
    have hbeyond : data.length ≤ start := Nat.le_of_not_le hinside
    simp only [slice, hstart, List.drop_length, List.take_nil, List.drop_eq_nil_of_le hbeyond]

namespace Header

/-- The bytes after the signature: the name of each, and the values that it may have. -/
def dialect : List (Text × List Nat) :=
  [("version", [0x51]), ("format", [0x00]), ("endianness", [0x01]), ("int_size", [0x04]),
    ("size_t_size", [0x04, 0x08]), ("instruction_size", [0x04]), ("number_size", [0x08]),
    ("integral_flag", [0x00])]

theorem dialect_eq_map : dialect = Field.all.map fun field => (field.name, field.accepted) := rfl

theorem getElem?_dialect {i : Nat} {field : Field} (h : Field.all[i]? = some field) :
    dialect[i]? = some (field.name, field.accepted) := by
  rw [dialect_eq_map, List.getElem?_map, h]
  rfl

/-- The byte in place `k` after the signature of a header at `start` is missing or not accepted, and
all between are accepted. -/
structure FirstRefused (data : Bytes) (start k : Nat) (name : Text) (accepted : List Nat) :
    Prop where
  stands : dialect[k]? = some (name, accepted)
  before : ∀ i < k, ∀ earlier, dialect[i]? = some earlier →
    ∃ b, data[start + 4 + i]? = some b ∧ b.toNat ∈ earlier.2
  refused : ∀ b, data[start + 4 + k]? = some b → b.toNat ∉ accepted

variable {data : Bytes} {start k : Nat} {name : Text} {accepted : List Nat}

theorem FirstRefused.exists_field (h : FirstRefused data start k name accepted) :
    ∃ field : Field, Field.all[k]? = some field ∧ field.name = name ∧
      field.accepted = accepted := by
  have hstands := h.stands
  rw [dialect_eq_map, List.getElem?_map] at hstands
  obtain ⟨field, hfield, hentry⟩ := Option.map_eq_some_iff.mp hstands
  cases hentry
  exact ⟨field, hfield, rfl, rfl⟩

/-- Which byte is the first to be refused is settled by the bytes up to it. -/
theorem FirstRefused.congr {data' : Bytes} (h : FirstRefused data start k name accepted)
    (hsame : ∀ i < start + 4 + k + 1, data'[i]? = data[i]?) :
    FirstRefused data' start k name accepted where
  stands := h.stands
  before i hi earlier hearlier := by
    rw [hsame _ (by omega)]
    exact h.before i hi earlier hearlier
  refused b hb := h.refused b (by rwa [hsame _ (by omega)] at hb)

/-- If no byte is the first to be refused, all are accepted. -/
theorem exists_accepted_of_not_firstRefused
    (h : ∀ k name accepted, ¬FirstRefused data start k name accepted)
    (hk : dialect[k]? = some (name, accepted)) :
    ∃ b, data[start + 4 + k]? = some b ∧ b.toNat ∈ accepted := by
  induction k using Nat.strongRecOn generalizing name accepted with
  | ind k ih =>
    by_contra hnone
    have hfirst : FirstRefused data start k name accepted :=
      ⟨hk, fun i hi earlier hearlier => ih i hi hearlier,
        fun b hb haccepted => hnone ⟨b, hb, haccepted⟩⟩
    exact h k name accepted hfirst

end Header

/-- The values that may have been there, as an error tells them. -/
def Evidence.ofValues : List Nat → Evidence
  | [value] => .number value
  | values => .numbers values

namespace DecodeError

/-- All that an error tells: what kind it is, where it was found, which field is concerned, and what
was expected and found there. -/
structure Tells (e : DecodeError) (kind : ErrorKind) (offset : Int) (field : Text)
    (expected actual : Evidence) : Prop where
  kind_eq : e.kind = kind
  offset_eq : e.offset = offset
  field_eq : e.field = some field
  expected_eq : e.expected = some expected
  actual_eq : e.actual = some actual

theorem expected_badHeaderByte (field : Header.Field) (found : Nat) (offset : Int) :
    (⟨.badHeaderByte field found, offset⟩ : DecodeError).expected =
      some (.ofValues field.accepted) := by
  cases field <;> rfl

end DecodeError

namespace Scan

/-! ### The bytes after the signature -/

section

variable (field : Header.Field) (before : Bytes)

theorem readHeaderByte_nil :
    readHeaderByte field before before.length =
      ⟨.error (.decode ⟨.shortRead "integer" (some field.name) 1 0, before.length⟩),
        before.length, []⟩ := by
  have hread := takes_readU8 (some field.name) before []
  rw [if_neg (by decide), List.append_nil] at hread
  exact (bind_of_ok rfl _).trans (by rw [bind_of_error hread]; rfl)

theorem readHeaderByte_cons (b : UInt8) (rest : Bytes) :
    readHeaderByte field (before ++ b :: rest) before.length =
      if b.toNat ∈ field.accepted then ⟨.ok b.toNat, (before.length + 1 : Nat), []⟩
      else ⟨.error (.decode ⟨.badHeaderByte field b.toNat, before.length⟩),
        (before.length + 1 : Nat), []⟩ := by
  have hread := takes_readU8 (some field.name) before (b :: rest)
  rw [if_pos (by rw [List.length_cons]; omega)] at hread
  refine (bind_of_ok rfl _).trans ?_
  rw [bind_of_ok hread]
  have hvalue : Bytes.littleEndian ((b :: rest).take 1) = b.toNat := by
    simp [Bytes.littleEndian]
  rw [hvalue]
  by_cases haccepted : b.toNat ∈ field.accepted
  · rw [if_pos haccepted, if_pos haccepted]
    rfl
  · rw [if_neg haccepted, if_neg haccepted]
    rfl

end

theorem exists_cons_of_getElem?_zero {data : Bytes} {b : UInt8} (h : data[0]? = some b) :
    ∃ rest, data = b :: rest :=
  List.head?_eq_some_iff.mp (List.head?_eq_getElem?.trans h)

/-- The bytes of a header, one for each of the fields. -/
def readHeaderBytes : List Header.Field → Scan (List Nat)
  | [] => Pure.pure []
  | field :: fields => do
    let value ← readHeaderByte field
    let values ← readHeaderBytes fields
    return value :: values

theorem readDialect_eq :
    readDialect = readHeaderBytes Header.Field.all >>= fun values =>
      Pure.pure (if values[4]? = some 4 then SizeWidth.four else SizeWidth.eight) := by
  simp only [readDialect, readHeaderBytes, Header.Field.all, bind_assoc, pure_bind]
  simp

section

variable {before after : Bytes} {fields : List Header.Field}

/-- The run of the first byte, where it is accepted. -/
theorem readHeaderBytes_cons {field : Header.Field} {b : UInt8} {rest : Bytes}
    (hb : b.toNat ∈ field.accepted) :
    readHeaderBytes (field :: fields) (before ++ b :: rest) before.length =
      (readHeaderBytes fields >>= fun values => Pure.pure (b.toNat :: values))
        (before ++ [b] ++ rest) (before ++ [b]).length := by
  have hbyte := readHeaderByte_cons field before b rest
  rw [if_pos hb] at hbyte
  rw [readHeaderBytes, bind_of_ok hbyte, List.append_assoc, List.singleton_append,
    List.length_append, List.length_singleton]
  rfl

theorem readHeaderBytes_of_accepted
    (h : ∀ (i : Nat) (field : Header.Field), fields[i]? = some field →
      ∃ b : UInt8, after[i]? = some b ∧ b.toNat ∈ field.accepted) :
    readHeaderBytes fields (before ++ after) before.length =
      ⟨.ok ((after.take fields.length).map UInt8.toNat), (before.length + fields.length : Nat),
        []⟩ := by
  induction fields generalizing before after with
  | nil => rfl
  | cons field fields ih =>
    obtain ⟨b, hhead, hb⟩ := h 0 field rfl
    obtain ⟨rest, rfl⟩ := exists_cons_of_getElem?_zero hhead
    have hrest := @ih (before ++ [b]) rest fun i g hg => h (i + 1) g hg
    rw [readHeaderBytes_cons hb, bind_of_ok hrest, List.length_append, List.length_singleton,
      List.length_cons, Nat.add_assoc, Nat.add_comm 1, List.take_succ_cons, List.map_cons]
    rfl

/-- The induction is on the fields: those before the refused byte are accepted and passed. -/
theorem readHeaderBytes_of_refused {k : Nat} {field : Header.Field} (hfield : fields[k]? = some field)
    (hbefore : ∀ i < k, ∀ g, fields[i]? = some g →
      ∃ b, after[i]? = some b ∧ b.toNat ∈ g.accepted)
    (hrefused : ∀ b, after[k]? = some b → b.toNat ∉ field.accepted) :
    (after[k]? = none → readHeaderBytes fields (before ++ after) before.length =
      ⟨.error (.decode ⟨.shortRead "integer" (some field.name) 1 0, (before.length + k : Nat)⟩),
        (before.length + k : Nat), []⟩) ∧
    ∀ b, after[k]? = some b → readHeaderBytes fields (before ++ after) before.length =
      ⟨.error (.decode ⟨.badHeaderByte field b.toNat, (before.length + k : Nat)⟩),
        (before.length + k + 1 : Nat), []⟩ := by
  induction fields generalizing before after k with
  | nil => cases hfield
  | cons g fields ih =>
    cases k with
    | zero =>
      cases hfield
      constructor
      · intro hnone
        obtain rfl : after = [] := by simpa using hnone
        rw [List.append_nil, readHeaderBytes, bind_of_error (readHeaderByte_nil field before)]
        rfl
      · intro b hb
        obtain ⟨rest, rfl⟩ := exists_cons_of_getElem?_zero hb
        have hbyte := readHeaderByte_cons field before b rest
        rw [if_neg (hrefused b hb)] at hbyte
        rw [readHeaderBytes, bind_of_error hbyte]
        rfl
    | succ k =>
      obtain ⟨b, hhead, hb⟩ := hbefore 0 (Nat.succ_pos k) g rfl
      obtain ⟨rest, rfl⟩ := exists_cons_of_getElem?_zero hhead
      obtain ⟨hnone, hsome⟩ := @ih (before ++ [b]) rest k hfield
        (fun i hi => hbefore (i + 1) (Nat.succ_lt_succ hi)) hrefused
      have hplace : (before ++ [b]).length + k = before.length + (k + 1) := by
        rw [List.length_append, List.length_singleton]
        omega
      rw [hplace] at hnone hsome
      rw [readHeaderBytes_cons hb]
      exact ⟨fun h => bind_of_error (hnone h) _, fun c hc => bind_of_error (hsome c hc) _⟩

end

/-! ### Headers -/

theorem readHeader_of_other {data : Bytes} {start : Nat}
    (h : (data.drop start).take 4 ≠ Header.signature) :
    readHeader data start =
      ⟨.error (.decode ⟨.badSignature ((data.drop start).take 4), start⟩), start, []⟩ := by
  have hpeek : peek 4 data start = ⟨.ok ((data.drop start).take 4), start, []⟩ :=
    congrArg (fun found => Scanned.mk (.ok found) start []) (data.slice_natCast start 4)
  rw [readHeader_eq]
  refine (bind_of_ok rfl _).trans ?_
  have hsigned : readSigned start ((data.drop start).take 4) data start =
      ⟨.error (.decode ⟨.badSignature ((data.drop start).take 4), start⟩), start, []⟩ := by
    rw [readSigned, if_pos h]
    rfl
  rw [bind_of_ok hpeek, hsigned]
  rfl

/-- A header that has its signature is read as the bytes after it are. -/
theorem readHeader_of_signature (before after : Bytes) :
    readHeader (before ++ Header.signature ++ after) before.length =
      (readDialect >>= fun w => takeNote (.header w) >>= fun _ => Pure.pure (Header.mk w))
        (before ++ Header.signature ++ after) (before ++ Header.signature).length := by
  have htake : (Header.signature ++ after).take 4 = Header.signature := List.take_left' rfl
  have hpeek : peek 4 (before ++ (Header.signature ++ after)) before.length =
      ⟨.ok Header.signature, before.length, []⟩ := by
    rw [← htake]
    exact peek_append before (Header.signature ++ after) 4
  have hskip : skip 4 (some "signature") (before ++ (Header.signature ++ after)) before.length =
      ⟨.ok (), (before.length : Int) + 4, []⟩ := by
    refine (takes_skip 4 (some "signature") before (Header.signature ++ after)).trans (if_pos ?_)
    rw [List.length_append]
    exact Nat.le_add_right 4 _
  rw [List.append_assoc, readHeader_eq]
  refine (bind_of_ok rfl _).trans ?_
  rw [bind_of_ok hpeek, readSigned, if_neg (not_not_intro rfl), bind_of_ok hskip,
    List.length_append]
  rfl

theorem exists_append_of_signature {data : Bytes} {start : Nat}
    (h : (data.drop start).take 4 = Header.signature) :
    ∃ before after : Bytes, data = before ++ Header.signature ++ after ∧ before.length = start := by
  have hinside : start ≤ data.length := by
    by_contra hbeyond
    rw [List.drop_eq_nil_of_le (Nat.le_of_not_le hbeyond)] at h
    cases h
  refine ⟨data.take start, (data.drop start).drop 4, ?_, List.length_take_of_le hinside⟩
  rw [← h, List.append_assoc, List.take_append_drop, List.take_append_drop]

theorem length_append_signature (before : Bytes) :
    (before ++ Header.signature).length = before.length + 4 := List.length_append

theorem getElem?_after_signature (before after : Bytes) (i : Nat) :
    (before ++ Header.signature ++ after)[before.length + 4 + i]? = after[i]? := by
  rw [← length_append_signature, List.getElem?_append_right (Nat.le_add_right _ i), Nat.add_sub_cancel_left]

section

variable {data : Bytes} {start k : Nat} {name : Text} {accepted : List Nat}

/-- The first byte that is refused ends the scan of a header, at that byte if it is missing, and else
after it. -/
theorem readHeader_of_firstRefused {field : Header.Field} (hfield : Header.Field.all[k]? = some field)
    (hsignature : (data.drop start).take 4 = Header.signature)
    (h : Header.FirstRefused data start k field.name field.accepted) :
    (data[start + 4 + k]? = none → readHeader data start =
      ⟨.error (.decode ⟨.shortRead "integer" (some field.name) 1 0, (start + 4 + k : Nat)⟩),
        (start + 4 + k : Nat), []⟩) ∧
    ∀ b, data[start + 4 + k]? = some b → readHeader data start =
      ⟨.error (.decode ⟨.badHeaderByte field b.toNat, (start + 4 + k : Nat)⟩),
        (start + 4 + k + 1 : Nat), []⟩ := by
  obtain ⟨before, after, rfl, rfl⟩ := exists_append_of_signature hsignature
  obtain ⟨_, hbefore, hrefused⟩ := h
  simp only [getElem?_after_signature] at hbefore hrefused ⊢
  have hearlier : ∀ i < k, ∀ g, Header.Field.all[i]? = some g →
      ∃ b, after[i]? = some b ∧ b.toNat ∈ g.accepted := by
    intro i hi g hg
    exact hbefore i hi (g.name, g.accepted) (Header.getElem?_dialect hg)
  have hbytes := @readHeaderBytes_of_refused (before ++ Header.signature) after _ k field hfield
    hearlier hrefused
  rw [length_append_signature] at hbytes
  rw [readHeader_of_signature, readDialect_eq, bind_assoc, length_append_signature]
  exact ⟨fun hnone => bind_of_error (hbytes.1 hnone) _, fun b hb => bind_of_error (hbytes.2 b hb) _⟩

theorem readHeader_of_not_firstRefused
    (hsignature : (data.drop start).take 4 = Header.signature)
    (h : ∀ k name accepted, ¬Header.FirstRefused data start k name accepted) :
    ∃ (w : SizeWidth) (b : UInt8), data[start + 8]? = some b ∧ b.toNat = w.bytes ∧
      readHeader data start = ⟨.ok ⟨w⟩, (start + 12 : Nat), [.header w]⟩ := by
  obtain ⟨b, hb, hwidth⟩ := Header.exists_accepted_of_not_firstRefused h (k := 4) rfl
  have haccepted : ∀ (i : Nat) (field : Header.Field), Header.Field.all[i]? = some field →
      ∃ c : UInt8, data[start + 4 + i]? = some c ∧ c.toNat ∈ field.accepted := by
    intro i field hfield
    exact Header.exists_accepted_of_not_firstRefused h (Header.getElem?_dialect hfield)
  obtain ⟨before, after, rfl, rfl⟩ := exists_append_of_signature hsignature
  simp only [getElem?_after_signature] at haccepted
  rw [getElem?_after_signature] at hb
  have hbytes := @readHeaderBytes_of_accepted (before ++ Header.signature) after _ haccepted
  rw [length_append_signature] at hbytes
  have hvalue : ((after.take Header.Field.all.length).map UInt8.toNat)[4]? = some b.toNat := by
    rw [List.getElem?_map, List.getElem?_take_of_lt (by decide), hb]
    rfl
  obtain ⟨w, hw⟩ : ∃ w : SizeWidth, b.toNat = w.bytes := by
    rcases List.mem_pair.mp hwidth with hfour | height
    · exact ⟨.four, hfour⟩
    · exact ⟨.eight, height⟩
  have hselected : (if some w.bytes = some 4 then SizeWidth.four else SizeWidth.eight) = w := by
    cases w <;> rfl
  refine ⟨w, b, (getElem?_after_signature before after 4).trans hb, hw, ?_⟩
  rw [readHeader_of_signature, readDialect_eq, bind_assoc, length_append_signature,
    bind_of_ok hbytes, hvalue, hw, hselected]
  rfl

end

/-- A header is refused for its first violation. Other bytes than the signature are told as they are,
without moving. After the signature the first byte that is missing or not accepted is told with its
place and its name, whatever comes after it. If there is none the header is accepted, with the width
that it says. -/
theorem readHeader_reports (data : Bytes) (start : Nat) :
    ((data.drop start).take 4 ≠ Header.signature → ∃ e : DecodeError,
      readHeader data start = ⟨.error (.decode e), start, []⟩ ∧
        e.Tells .format start "signature" (.bytes Header.signature)
          (.bytes ((data.drop start).take 4))) ∧
    ((data.drop start).take 4 = Header.signature →
      (∀ k name accepted, Header.FirstRefused data start k name accepted →
        (data[start + 4 + k]? = none → ∃ e : DecodeError,
          readHeader data start = ⟨.error (.decode e), (start + 4 + k : Nat), []⟩ ∧
            e.Tells .truncatedInput (start + 4 + k : Nat) name (.number 1) (.number 0)) ∧
        ∀ b, data[start + 4 + k]? = some b → ∃ e : DecodeError,
          e.Tells .format (start + 4 + k : Nat) name (.ofValues accepted) (.number b.toNat) ∧
            ∀ data' : Bytes, data'.take (start + 4 + k + 1) = data.take (start + 4 + k + 1) →
              readHeader data' start = ⟨.error (.decode e), (start + 4 + k + 1 : Nat), []⟩) ∧
      ((∀ k name accepted, ¬Header.FirstRefused data start k name accepted) →
        ∃ (w : SizeWidth) (b : UInt8), data[start + 8]? = some b ∧ b.toNat = w.bytes ∧
          readHeader data start = ⟨.ok ⟨w⟩, (start + 12 : Nat), [.header w]⟩)) := by
  refine ⟨fun hother => ?_, fun hsignature => ⟨fun k name accepted hfirst => ?_, ?_⟩⟩
  · exact ⟨_, readHeader_of_other hother, ⟨rfl, rfl, rfl, rfl, rfl⟩⟩
  · obtain ⟨field, hfield, rfl, rfl⟩ := hfirst.exists_field
    constructor
    · intro hnone
      exact ⟨_, (readHeader_of_firstRefused hfield hsignature hfirst).1 hnone,
        ⟨rfl, rfl, rfl, rfl, rfl⟩⟩
    · intro b hb
      refine ⟨⟨.badHeaderByte field b.toNat, (start + 4 + k : Nat)⟩,
        ⟨rfl, rfl, rfl, DecodeError.expected_badHeaderByte field _ _, rfl⟩, fun data' htake => ?_⟩
      have hsame : ∀ i < start + 4 + k + 1, data'[i]? = data[i]? := by
        intro i hi
        rw [← List.getElem?_take_of_lt hi, htake, List.getElem?_take_of_lt hi]
      have hsignature' : (data'.drop start).take 4 = Header.signature := by
        rw [← hsignature, List.take_drop, List.take_drop]
        have hshort := congrArg (List.take (start + 4)) htake
        rw [List.take_take, List.take_take, Nat.min_eq_left (by omega)] at hshort
        rw [hshort]
      exact (readHeader_of_firstRefused hfield hsignature' (hfirst.congr hsame)).2 b
        ((hsame _ (Nat.lt_succ_self _)).trans hb)
  · exact readHeader_of_not_firstRefused hsignature

/-- A header in the midst of other bytes, with three bytes that are not accepted. -/
def wrongFormat : Bytes := [0xAA, 0xBB] ++ Header.signature ++ [0x51, 0x09, 0x05, 0x04, 0x03]

theorem readHeader_wrongFormat :
    (wrongFormat.drop 2).take 4 = Header.signature ∧
      Header.FirstRefused wrongFormat 2 1 "format" [0x00] ∧
      ∃ e : DecodeError, e.Tells .format 7 "format" (.number 0x00) (.number 0x09) ∧
        ∀ data' : Bytes, data'.take 8 = wrongFormat.take 8 →
          readHeader data' 2 = ⟨.error (.decode e), 8, []⟩ := by
  have hsignature : (wrongFormat.drop 2).take 4 = Header.signature := by decide
  have hfirst : Header.FirstRefused wrongFormat 2 1 "format" [0x00] := by
    refine ⟨rfl, fun i hi earlier hearlier => ?_, fun b hb => ?_⟩
    · obtain rfl : i = 0 := by omega
      cases hearlier
      exact ⟨0x51, rfl, by decide⟩
    · cases hb
      decide
  obtain ⟨_, hwrong⟩ := ((readHeader_reports wrongFormat 2).2 hsignature).1 1 "format" [0x00] hfirst
  exact ⟨hsignature, hfirst, hwrong 0x09 rfl⟩

end Scan

end LuaBytecode
