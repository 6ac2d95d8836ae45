import LuaBytecode.Proofs.Decoder.RefusedStrings
import LuaBytecode.Proofs.Scan.Cursor

/-!
# Where an operation fails

An operation reads one sub-field after another, and those that it has read settle which one it awaits
next. If it fails with a decode error it has passed all sub-fields before the one that it fails in.
The error is told at the start of that one, and the reader is left there or behind the byte that is
refused; only for a malformed string is the error told inside the payload, with the reader behind it.
-/

namespace LuaBytecode.Scan

/-- A sub-field that others come after, with what was read of it. -/
inductive SubField where
  | signature
  | headerByte (b : UInt8)
  | tag (b : UInt8)
  | length (w : SizeWidth) (n : Nat)

def SubField.bytes : SubField → Bytes
  | .signature => Header.signature
  | .headerByte b => [b]
  | .tag b => [b]
  | .length w n => Bytes.ofLittleEndian w.bytes n

/-- The bytes of sub-fields that stand one after another. -/
def SubField.bytesAll (passed : List SubField) : Bytes := passed.flatMap bytes

theorem SubField.bytesAll_cons (f : SubField) (passed : List SubField) :
    bytesAll (f :: passed) = f.bytes ++ bytesAll passed := List.flatMap_cons

theorem SubField.length_bytes_length (w : SizeWidth) (n : Nat) :
    (SubField.length w n).bytes.length = w.bytes := Bytes.length_ofLittleEndian w.bytes n

/-- A sub-field that is still to be read. A payload has its terminator with it. -/
inductive Awaited where
  | span (size : Nat) (name : Option Text)
  | length (w : SizeWidth) (name : Option Text)
  | payload (size : Nat) (name : Text)
  | tag
  | signature
  | headerByte (field : Header.Field)

/-- Where an error leaves the reader, by its kind: at the error if bytes are missing, if a size is too
large and if there is no signature; behind the byte where another byte is refused; and at the end of
the string if that is malformed. -/
structure Leaves (e : DecodeError) (stop offset : Int) : Prop where
  kinds : e.kind ∈ [.truncatedInput, .range, .format, .unrecognizedConstantTag, .invalidString]
  here : e.kind = .truncatedInput ∨ e.kind = .range ∨
    e.kind = .format ∧ e.field = some ("signature" : Text) → offset = e.offset
  behind : e.kind = .format ∧ e.field ≠ some ("signature" : Text) ∨
    e.kind = .unrecognizedConstantTag → offset = e.offset + 1
  stop : e.kind = .invalidString → offset = stop

namespace Awaited

def size : Awaited → Nat
  | .span size _ => size
  | .length w _ => w.bytes
  | .payload size _ => size
  | .tag => 1
  | .signature => 4
  | .headerByte _ => 1

def name : Awaited → Option Text
  | .span _ name => name
  | .length _ name => name
  | .payload _ name => some name
  | .tag => some "constant tag"
  | .signature => some "signature"
  | .headerByte field => some field.name

/-- The error that a sub-field in that place is refused with, and where the reader is left: before it
if bytes are missing, if it is a size too large for the host or if it is not the signature; behind the
byte if it is a byte with another value; and behind the payload if that is malformed. -/
inductive Refused (data : Bytes) (place : Int) (e : DecodeError) : Awaited → Int → Prop
  | short {next : Awaited} (hkind : e.kind = .truncatedInput) (hoffset : e.offset = place)
    (hmissing : data.length < place + next.size) : Refused data place e next place
  | tooLarge {w : SizeWidth} {name : Option Text} (hkind : e.kind = .range)
    (hoffset : e.offset = place) : Refused data place e (.length w name) place
  | signature (hkind : e.kind = .format) (hoffset : e.offset = place) :
    Refused data place e .signature place
  | headerByte {field : Header.Field} (hkind : e.kind = .format) (hoffset : e.offset = place) :
    Refused data place e (.headerByte field) (place + 1)
  | tag (hkind : e.kind = .unrecognizedConstantTag) (hoffset : e.offset = place) :
    Refused data place e .tag (place + 1)
  | payload {size : Nat} {name : Text} (hkind : e.kind = .invalidString)
    (hstart : place ≤ e.offset) (hend : e.offset + 1 < place + size)
    (hinside : place + size ≤ data.length) :
    Refused data place e (.payload size name) (place + size)

theorem name_headerByte_ne (field : Header.Field) :
    (Awaited.headerByte field).name ≠ some ("signature" : Text) := by
  cases field <;> decide

section

variable {data : Bytes} {place offset : Int} {e : DecodeError} {next : Awaited}

theorem Refused.leaves (h : next.Refused data place e offset) (hname : e.field = next.name) :
    Leaves e (place + next.size) offset := by
  cases h with
  | short hkind hoffset _ | tooLarge hkind hoffset => constructor <;> simp [hkind, hoffset]
  | signature hkind hoffset => constructor <;> simp [hkind, hoffset, hname, name]
  | @headerByte field hkind hoffset =>
    have hne : e.field ≠ some ("signature" : Text) := hname ▸ name_headerByte_ne field
    constructor <;> simp [hkind, hoffset, hne]
  | tag hkind hoffset => constructor <;> simp [hkind, hoffset]
  | payload hkind _ _ _ => constructor <;> simp [hkind, size]

/-- The error lies from the place of the sub-field on, and not behind the data. -/
theorem Refused.bounds (h : next.Refused data place e offset) (hplace : place ≤ data.length) :
    place ≤ e.offset ∧ e.offset ≤ data.length := by
  cases h with
  | short _ hoffset _ | tooLarge _ hoffset | signature _ hoffset | headerByte _ hoffset
  | tag _ hoffset => exact ⟨hoffset.ge, hoffset.trans_le hplace⟩
  | payload _ hstart hend hinside => exact ⟨hstart, by omega⟩

end

end Awaited

/-- What an operation awaits once it has passed the sub-fields. -/
inductive Operation.Awaits : Operation → List SubField → Awaited → Prop
  | require {size : Nat} {name : Option Text} : Awaits (.require size name) [] (.span size name)
  | readBytes {size : Nat} {name : Option Text} : Awaits (.readBytes size name) [] (.span size name)
  | skip {size : Nat} {name : Option Text} : Awaits (.skip size name) [] (.span size name)
  | readU8 {name : Option Text} : Awaits (.readU8 name) [] (.span 1 name)
  | readU32 {name : Option Text} : Awaits (.readU32 name) [] (.span 4 name)
  | readDouble {name : Option Text} : Awaits (.readDouble name) [] (.span 8 name)
  | readSize {w : SizeWidth} {name : Option Text} :
    Awaits (.readSize w.bytes name) [] (.length w name)
  | readLength {w : SizeWidth} {errors name : Text} :
    Awaits (.readString w.bytes errors name) [] (.length w (some (name ++ " length")))
  | readPayload {w : SizeWidth} {errors name : Text} {n : Nat} (hn : n ≠ 0)
    (hfits : n < 256 ^ w.bytes ∧ n ≤ maxSize) :
    Awaits (.readString w.bytes errors name) [.length w n] (.payload n name)
  | skipLength {w : SizeWidth} {name : Text} :
    Awaits (.skipString w.bytes name) [] (.length w (some (name ++ " length")))
  | skipPayload {w : SizeWidth} {name : Text} {n : Nat} (hn : n ≠ 0)
    (hfits : n < 256 ^ w.bytes ∧ n ≤ maxSize) :
    Awaits (.skipString w.bytes name) [.length w n] (.payload n name)
  | tag {width : Int} {errors : Text} : Awaits (.readConstant width errors) [] .tag
  | boolean {width : Int} {errors : Text} :
    Awaits (.readConstant width errors) [.tag 0x01] (.span 1 (some "boolean constant"))
  | number {width : Int} {errors : Text} :
    Awaits (.readConstant width errors) [.tag 0x03] (.span 8 (some "number constant"))
  | string {width : Int} {errors : Text} {passed : List SubField} {next : Awaited}
    (h : Awaits (.readString width errors "string constant") passed next) :
    Awaits (.readConstant width errors) (.tag 0x04 :: passed) next
  | signature : Awaits .readHeader [] .signature
  | headerByte {earlier later : List Header.Field} {field : Header.Field} {bs : Bytes}
    (hall : Header.Field.all = earlier ++ field :: later)
    (haccepted : List.Forall₂ (fun (b : UInt8) (g : Header.Field) => b.toNat ∈ g.accepted) bs
      earlier) :
    Awaits .readHeader (.signature :: bs.map .headerByte) (.headerByte field)

/-! ### Scans that fail in a sub-field -/

variable {α β : Type}

/-- A scan that started before `after` has failed in a sub-field that it awaited. -/
inductive FailsIn (awaits : List SubField → Awaited → Prop) (before after : Bytes)
    (e : DecodeError) (offset : Int) : Prop
  | intro {passed : List SubField} {next : Awaited} (hawaits : awaits passed next)
    (hpassed : SubField.bytesAll passed <+: after) (hname : e.field = next.name)
    (hrefused : next.Refused (before ++ after) (before ++ SubField.bytesAll passed).length e offset)

/-- If the scan fails once `word` is read, then in a sub-field awaited from before that word on. -/
def Refuses (awaits : List SubField → Awaited → Prop) (before word : Bytes) (s : Scan α) : Prop :=
  ∀ rest e, (s (before ++ (word ++ rest)) (before ++ word).length).result = .error (.decode e) →
    FailsIn awaits before (word ++ rest) e
      (s (before ++ (word ++ rest)) (before ++ word).length).offset

variable {awaits : List SubField → Awaited → Prop} {before after word : Bytes} {next : Awaited}
  {e : DecodeError} {offset : Int}

theorem FailsIn.first (hawaits : awaits [] next) (hname : e.field = next.name)
    (hrefused : next.Refused (before ++ after) before.length e offset) :
    FailsIn awaits before after e offset := by
  refine .intro hawaits List.nil_prefix hname ?_
  rwa [SubField.bytesAll, List.flatMap_nil, List.append_nil]

namespace Refuses

theorem of_ok {s : Scan α} (h : ∀ data start, ∃ a, (s data start).result = .ok a) :
    Refuses awaits before word s := by
  intro rest e he
  obtain ⟨a, ha⟩ := h (before ++ (word ++ rest)) (before ++ word).length
  cases ha.symm.trans he

/-- Either the first scan fails, or the second one goes on where that has ended. -/
theorem bind_of_accepts {s : Scan α} {k : α → Scan β} (hs : Refuses awaits before word s)
    (hk : ∀ rest a middle e, s.Accepts (before ++ (word ++ rest)) (before ++ word).length a middle →
      (k a (before ++ (word ++ rest)) middle).result = .error (.decode e) →
        FailsIn awaits before (word ++ rest) e (k a (before ++ (word ++ rest)) middle).offset) :
    Refuses awaits before word (s >>= k) := by
  intro rest e he
  rcases accepts_or_error s (before ++ (word ++ rest)) (before ++ word).length with
    ⟨a, middle, haccepts⟩ | ⟨f, hf⟩
  · obtain ⟨hresult, hoffset⟩ := haccepts.bind k
    rw [hresult] at he
    rw [hoffset]
    exact hk rest a middle e haccepts he
  · rw [result_bind_of_error hf] at he
    cases he
    rw [offset_bind_of_error hf]
    exact hs rest e hf

theorem bind {s : Scan α} {k : α → Scan β} {L : Language α} (hs : Refuses awaits before word s)
    (hread : s.Recognizes L) (hk : ∀ more a, L more a → Refuses awaits before (word ++ more) (k a)) :
    Refuses awaits before word (s >>= k) := by
  refine hs.bind_of_accepts fun rest a middle e haccepts he => ?_
  rw [← List.append_assoc] at haccepts
  obtain ⟨more, others, rfl, rfl, hmore⟩ := (hread (before ++ word) rest a middle).mp haccepts
  rw [List.append_assoc, ← List.append_assoc word] at he ⊢
  exact hk more a hmore others e he

/-- What comes after the scan has no part in it if it does not fail. -/
theorem bind_of_ok {s : Scan α} {k : α → Scan β} (hs : Refuses awaits before word s)
    (hk : ∀ a data start, ∃ b, (k a data start).result = .ok b) :
    Refuses awaits before word (s >>= k) := by
  refine hs.bind_of_accepts fun rest a middle e _ he => ?_
  obtain ⟨b, hb⟩ := hk a (before ++ (word ++ rest)) middle
  cases hb.symm.trans he

theorem map {s : Scan α} (hs : Refuses awaits before word s) (f : α → β) :
    Refuses awaits before word (s >>= fun a => Pure.pure (f a)) :=
  hs.bind_of_ok fun a _ _ => ⟨f a, rfl⟩

theorem bind_position {k : Int → Scan α}
    (h : Refuses awaits before word (k (before ++ word).length)) :
    Refuses awaits before word (position >>= k) := by
  intro rest e he
  rw [Scan.bind_of_ok rfl] at he ⊢
  exact h rest e he

/-- A sub-field that is read has been passed. -/
theorem pass {s : Scan α} (f : SubField)
    (h : Refuses (fun passed next => awaits (f :: passed) next) (before ++ f.bytes) [] s) :
    Refuses awaits before f.bytes s := by
  intro rest e he
  have hpass := h rest e
  rw [List.append_nil, List.nil_append, List.append_assoc] at hpass
  obtain ⟨hawaits, hpassed, hname, hrefused⟩ := hpass he
  refine .intro hawaits ?_ hname ?_
  · rw [SubField.bytesAll_cons]
    exact (List.prefix_append_right_inj _).mpr hpassed
  · rw [List.append_assoc, List.append_assoc] at hrefused
    rwa [SubField.bytesAll_cons]

end Refuses

theorem Takes.refuses {s : Scan α} {purpose : Text} {field : Option Text} {size : Nat}
    {f : Bytes → α} (h : s.Takes purpose field size f) (hawaits : size ≠ 0 → awaits [] next)
    (hsize : next.size = size) (hname : next.name = field) : Refuses awaits before [] s := by
  intro rest e he
  rw [List.append_nil, List.nil_append, h before rest] at he ⊢
  by_cases hrest : size ≤ rest.length
  · rw [if_pos hrest] at he
    cases he
  · rw [if_neg hrest] at he ⊢
    cases he
    refine .first (hawaits (by omega)) hname.symm (.short rfl rfl ?_)
    rw [hsize, List.length_append]
    omega

theorem refuses_require {size : Nat} {field : Option Text} (h : awaits [] (.span size field)) :
    Refuses awaits before [] (require size field) := by
  intro rest e he
  rw [List.append_nil, List.nil_append, require_append] at he ⊢
  by_cases hrest : size ≤ rest.length
  · rw [if_pos hrest] at he
    cases he
  · rw [if_neg hrest] at he
    cases he
    refine .first h rfl (.short rfl rfl ?_)
    rw [Awaited.size, List.length_append]
    omega

/-! ### Sizes and strings -/

theorem refuses_readSize {width : Int} {field : Option Text}
    (h : ∀ w : SizeWidth, width = w.bytes → awaits [] (.length w field)) :
    Refuses awaits before [] (readSize width field) := by
  intro rest e he
  cases hw : SizeWidth.ofBytes? width with
  | none =>
    rw [readSize_of_unsupported hw] at he
    cases he
  | some w =>
    obtain rfl := eq_bytes_of_ofBytes? hw
    rw [List.append_nil, List.nil_append, readSize_append] at he ⊢
    by_cases hrest : w.bytes ≤ rest.length
    · rw [if_pos hrest] at he ⊢
      by_cases hmax : maxSize < Bytes.littleEndian (rest.take w.bytes)
      · rw [if_pos hmax] at he ⊢
        cases he
        exact .first (h w rfl) rfl (.tooLarge rfl rfl)
      · rw [if_neg hmax] at he
        cases he
    · rw [if_neg hrest] at he ⊢
      cases he
      refine .first (h w rfl) rfl (.short rfl rfl ?_)
      rw [Awaited.size, List.length_append]
      omega

/-- A size that is read has been passed, and is one that the width holds. -/
theorem refuses_readSize_bind {width : Int} {field : Option Text} {k : Nat → Scan α}
    (h : ∀ w : SizeWidth, width = w.bytes → awaits [] (.length w field))
    (hk : ∀ (w : SizeWidth) (n : Nat), width = w.bytes → n < 256 ^ w.bytes ∧ n ≤ maxSize →
      Refuses (fun passed next => awaits (.length w n :: passed) next)
        (before ++ (SubField.length w n).bytes) [] (k n)) :
    Refuses awaits before [] (readSize width field >>= k) := by
  cases hw : SizeWidth.ofBytes? width with
  | none =>
    intro rest e he
    rw [readSize_of_unsupported hw] at he
    cases he
  | some w =>
    obtain rfl := eq_bytes_of_ofBytes? hw
    refine (refuses_readSize h).bind (recognizes_readSize w field) ?_
    rintro _ n ⟨_, hfits, ⟨⟩, rfl⟩
    exact .pass (.length w n) (hk w n rfl hfits)

/-- The payload has been read, with its terminator, when its text is refused. -/
theorem refuses_textOf {errors name : Text} {content : Bytes}
    (h : awaits [] (.payload content.length name)) :
    Refuses awaits before content
      (textOf (Policy.readNamed errors) before.length name content.dropLast) := by
  intro rest e he
  rcases hread : Policy.readNamed errors content.dropLast with (m | f) | t
  · rw [textOf, hread] at he ⊢
    cases he
    have hstart := Policy.start_lt_of_readNamed hread
    rw [List.length_dropLast] at hstart
    refine .first h rfl ?_
    change Awaited.Refused _ _ _ _ ((before ++ content).length : Int)
    rw [List.length_append, Int.natCast_add]
    refine .payload rfl ?_ ?_ ?_
    · change (before.length : Int) ≤ before.length + m.start
      omega
    · change (before.length : Int) + m.start + 1 < before.length + content.length
      omega
    · simp only [List.length_append]
      omega
  · rw [textOf, hread] at he
    cases he
  · rw [textOf, hread] at he
    cases he

theorem refuses_readContent {errors name : Text} {n : Nat}
    (h : n ≠ 0 → awaits [] (.payload n name)) :
    Refuses awaits before [] (readContent (Policy.readNamed errors) before.length name n) := by
  unfold readContent
  split
  · exact .of_ok fun _ _ => ⟨none, rfl⟩
  · rename_i hn
    refine ((takes_readBytes n (some name)).refuses h rfl rfl).bind (recognizes_readBytes n _) ?_
    rintro _ content ⟨rfl, rfl⟩
    exact (refuses_textOf (h hn)).map some

/-- A string field of that name is awaited: its length first, and then as much as that says. -/
structure AwaitsString (awaits : List SubField → Awaited → Prop) (width : Int) (name : Text) :
    Prop where
  length : ∀ w : SizeWidth, width = w.bytes → awaits [] (.length w (some (name ++ " length")))
  payload : ∀ (w : SizeWidth) (n : Nat), width = w.bytes → n < 256 ^ w.bytes ∧ n ≤ maxSize →
    n ≠ 0 → awaits [.length w n] (.payload n name)

theorem refuses_readString {width : Int} {name : Text} (h : AwaitsString awaits width name)
    (errors : Text) : Refuses awaits before [] (readString width (Policy.readNamed errors) name) := by
  refine .bind_position (refuses_readSize_bind h.length fun w n hwidth hfits => ?_)
  have hstart : ((before ++ []).length : Int) + width =
      (before ++ (SubField.length w n).bytes).length := by
    rw [hwidth, List.append_nil, List.length_append, SubField.length_bytes_length]
    rfl
  rw [hstart]
  exact refuses_readContent (h.payload w n hwidth hfits)

theorem refuses_skipString {width : Int} {name : Text} (h : AwaitsString awaits width name) :
    Refuses awaits before [] (skipString width name) :=
  refuses_readSize_bind h.length fun w n hwidth hfits =>
    (takes_skip n (some name)).refuses (h.payload w n hwidth hfits) rfl rfl

/-! ### Constants and the header -/

/-- A byte has been read when its value is refused. -/
theorem refuses_failAt {b : UInt8} {cause : Cause} (hawaits : awaits [] next)
    (hname : (DecodeError.mk cause before.length).field = next.name)
    (hrefused : ∀ (data : Bytes) (place : Int), next.Refused data place ⟨cause, place⟩ (place + 1)) :
    Refuses awaits before [b] (failAt before.length cause : Scan α) := by
  intro rest e he
  cases he
  refine .first hawaits hname ?_
  change next.Refused _ _ _ ((before ++ [b]).length : Int)
  rw [List.length_append, List.length_singleton, Int.natCast_add]
  exact hrefused _ _

theorem refuses_readConstant {width : Int} {errors : Text} :
    Refuses (Operation.Awaits (.readConstant width errors)) before []
      (readConstant width (Policy.readNamed errors)) := by
  refine .bind_position ?_
  have htag : Refuses (Operation.Awaits (.readConstant width errors)) before []
      (readU8 (some "constant tag")) := (takes_readU8 _).refuses (fun _ => .tag) rfl rfl
  refine htag.bind (recognizes_readU8 _) ?_
  rintro _ _ ⟨b, _, ⟨⟩, rfl⟩
  rw [List.append_nil, List.nil_append]
  unfold readValue
  split
  · exact .of_ok fun _ _ => ⟨.nil, rfl⟩
  · rename_i hb
    obtain rfl : b = 0x01 := UInt8.toNat_inj.mp hb
    have hread : Refuses (fun passed next => Operation.Awaits (.readConstant width errors)
        (.tag 0x01 :: passed) next) (before ++ [0x01]) [] (readU8 (some "boolean constant")) :=
      (takes_readU8 _).refuses (fun _ => .boolean) rfl rfl
    exact .pass (.tag 0x01) (hread.map _)
  · rename_i hb
    obtain rfl : b = 0x03 := UInt8.toNat_inj.mp hb
    have hread : Refuses (fun passed next => Operation.Awaits (.readConstant width errors)
        (.tag 0x03 :: passed) next) (before ++ [0x03]) [] (readDouble (some "number constant")) :=
      (takes_readDouble _).refuses (fun _ => .number) rfl rfl
    exact .pass (.tag 0x03) (hread.map _)
  · rename_i hb
    obtain rfl : b = 0x04 := UInt8.toNat_inj.mp hb
    refine .pass (.tag 0x04) (.map (refuses_readString ⟨?_, ?_⟩ errors) _)
    · rintro w rfl
      exact .string .readLength
    · rintro w n rfl hfits hn
      exact .string (.readPayload hn hfits)
  · exact refuses_failAt .tag rfl fun _ _ => .tag rfl rfl

theorem refuses_readHeaderByte {field : Header.Field} (h : awaits [] (.headerByte field)) :
    Refuses awaits before [] (readHeaderByte field) := by
  refine .bind_position ?_
  refine ((takes_readU8 _).refuses (fun _ => h) rfl rfl).bind (recognizes_readU8 _) ?_
  rintro _ _ ⟨b, _, ⟨⟩, rfl⟩
  rw [List.append_nil, List.nil_append]
  split
  · exact .of_ok fun _ _ => ⟨b.toNat, rfl⟩
  · exact refuses_failAt h rfl fun _ _ => .headerByte rfl rfl

/-- The induction is on the fields that are still to be read; the bytes of the earlier ones have been
accepted. -/
theorem refuses_readHeaderBytes {earlier fields : List Header.Field} {bs : Bytes}
    (hall : Header.Field.all = earlier ++ fields)
    (haccepted : List.Forall₂ (fun (b : UInt8) (g : Header.Field) => b.toNat ∈ g.accepted) bs
      earlier) :
    Refuses (fun passed next => Operation.Awaits .readHeader
      (.signature :: bs.map .headerByte ++ passed) next) before [] (readHeaderBytes fields) := by
  induction fields generalizing earlier bs before with
  | nil => exact .of_ok fun _ _ => ⟨[], rfl⟩
  | cons field fields ih =>
    have hbyte : Refuses (fun passed next => Operation.Awaits .readHeader
        (.signature :: bs.map .headerByte ++ passed) next) before [] (readHeaderByte field) :=
      refuses_readHeaderByte (by rw [List.append_nil]; exact .headerByte hall haccepted)
    refine hbyte.bind (recognizes_readHeaderByte field) ?_
    rintro _ _ ⟨b, hb, ⟨⟩, rfl⟩
    have hrest := @ih (before ++ [b]) (earlier ++ [field]) (bs ++ [b])
      (by rw [hall, List.append_assoc]; rfl) (List.rel_append haccepted (.cons hb .nil))
    simp only [List.map_append, List.map_cons, List.map_nil, List.cons_append, List.append_assoc,
      List.nil_append] at hrest
    exact .pass (.headerByte b) (hrest.map _)

theorem refuses_readHeader : Refuses (Operation.Awaits .readHeader) before [] readHeader := by
  intro rest e he
  rw [List.append_nil, List.nil_append] at he ⊢
  by_cases hsigned : rest.take 4 = Header.signature
  · obtain ⟨others, rfl⟩ : Header.signature <+: rest := hsigned ▸ List.take_prefix 4 rest
    have hbytes := @refuses_readHeaderBytes (before ++ Header.signature) [] _ [] rfl .nil
    have hpass : Refuses (Operation.Awaits .readHeader) before Header.signature
        (readDialect >>= fun w => takeNote (.header w) >>= fun _ => Pure.pure (Header.mk w)) := by
      rw [readDialect_eq]
      exact .pass .signature ((hbytes.map _).bind_of_ok fun w _ _ => ⟨⟨w⟩, rfl⟩)
    rw [← List.append_assoc, readHeader_of_signature] at he ⊢
    rw [List.append_assoc] at he ⊢
    exact hpass others e he
  · have hrun := @readHeader_of_other (before ++ rest) before.length
      (by rwa [List.drop_left])
    rw [hrun] at he ⊢
    cases he
    exact .first .signature rfl (.signature rfl rfl)

/-! ### Single operations -/

namespace Operation

theorem refuses_run {op : Operation} (h : op.Sized) : Refuses op.Awaits before [] op.run := by
  cases op with
  | peek size => exact .of_ok fun _ _ => ⟨_, rfl⟩
  | require size field =>
    obtain ⟨n, rfl⟩ := Int.eq_ofNat_of_zero_le h
    exact (refuses_require .require).map _
  | readBytes size field =>
    obtain ⟨n, rfl⟩ := Int.eq_ofNat_of_zero_le h
    exact ((takes_readBytes n field).refuses (fun _ => .readBytes) rfl rfl).map _
  | skip size field =>
    obtain ⟨n, rfl⟩ := Int.eq_ofNat_of_zero_le h
    exact ((takes_skip n field).refuses (fun _ => .skip) rfl rfl).map _
  | readU8 field => exact ((takes_readU8 field).refuses (fun _ => .readU8) rfl rfl).map _
  | readU32 field => exact ((takes_readU32 field).refuses (fun _ => .readU32) rfl rfl).map _
  | readDouble field =>
    exact ((takes_readDouble field).refuses (fun _ => .readDouble) rfl rfl).map _
  | readSize width field =>
    refine .map (refuses_readSize ?_) _
    rintro w rfl
    exact .readSize
  | readString width errors field =>
    refine .map (refuses_readString ⟨?_, ?_⟩ errors) _
    · rintro w rfl
      exact .readLength
    · rintro w n rfl hfits hn
      exact .readPayload hn hfits
  | skipString width field =>
    refine .map (refuses_skipString ⟨?_, ?_⟩) _
    · rintro w rfl
      exact .skipLength
    · rintro w n rfl hfits hn
      exact .skipPayload hn hfits
  | readConstant width errors => exact refuses_readConstant.map _
  | readHeader => exact refuses_readHeader.map _

/-- If an operation fails for the data, it is in a sub-field that it awaited: it has passed those before,
byte by byte, and the error is told in that one, at its start unless it is a malformed payload. The
kind of the error settles where the reader is left. -/
theorem run_error {op : Operation} {data : Bytes} {start : Int} {e : DecodeError}
    (hsized : op.Sized) (hstart : Inside data start)
    (he : (op.run data start).result = .error (.decode e)) :
    ∃ passed next place, op.Awaits passed next ∧
      SubField.bytesAll passed <+: data.drop start.toNat ∧
      place = start + (SubField.bytesAll passed).length ∧
      e.field = next.name ∧ next.Refused data place e (op.run data start).offset ∧
      Leaves e (place + next.size) (op.run data start).offset ∧
      start ≤ e.offset ∧ e.offset ≤ data.length := by
  obtain ⟨before, after, rfl, rfl⟩ := hstart.exists_append
  have hfails := @refuses_run before op hsized after e
  rw [List.append_nil, List.nil_append] at hfails
  obtain ⟨hawaits, hpassed, hname, hrefused⟩ := hfails he
  rename_i passed next
  rw [List.length_append, Int.natCast_add] at hrefused
  have hplace : (before.length : Int) + (SubField.bytesAll passed).length ≤
      (before ++ after).length := by
    rw [List.length_append]
    have := hpassed.length_le
    omega
  obtain ⟨hlow, hhigh⟩ := hrefused.bounds hplace
  refine ⟨passed, next, _, hawaits, ?_, rfl, hname, hrefused, hrefused.leaves hname, by omega, hhigh⟩
  rwa [Int.toNat_natCast, List.drop_left]

/-- After another byte a constant: a string that breaks off in its second character. -/
def brokenConstant : Bytes := [0xFF, 0x04, 0x03, 0x00, 0x00, 0x00, 0x61, 0xC3, 0x00, 0xFF]

theorem readConstant_brokenConstant : ∃ e : DecodeError,
    (readConstant 4 "strict").Sized ∧ Inside brokenConstant 1 ∧
      ((readConstant 4 "strict").run brokenConstant 1).result = .error (.decode e) ∧
      e.kind = .invalidString ∧ e.offset = 7 ∧
      ∃ passed next, (readConstant 4 "strict").Awaits passed next ∧
        SubField.bytesAll passed <+: brokenConstant.drop 1 ∧
        Leaves e (1 + (SubField.bytesAll passed).length + next.size) 9 := by
  have hsized : (readConstant 4 "strict").Sized := trivial
  have hstart : Inside brokenConstant 1 := ⟨by decide, by decide⟩
  have he : ((readConstant 4 "strict").run brokenConstant 1).result = .error (.decode
      ⟨.malformedString "string constant" .endOfData [0x61, 0xC3], 7⟩) := rfl
  obtain ⟨passed, next, _, hawaits, hpassed, rfl, _, _, hleaves, _⟩ := run_error hsized hstart he
  exact ⟨_, hsized, hstart, he, rfl, rfl, passed, next, hawaits, hpassed, hleaves⟩

end Operation

end LuaBytecode.Scan
