import LuaBytecode.Proofs.Action
import LuaBytecode.Proofs.Text.Pieces

/-!
# ASCII texts and high surrogates

What is written for malformed bytes is ASCII, the replacement character, or low surrogates. So only
the policy that passes surrogates on puts a high surrogate into a text, and a pair of surrogates
that stands for no character comes from that policy alone.
-/

namespace LuaBytecode

namespace Text

def isAscii (t : Text) : Bool := t.codes.all fun c => c.val < 0x80

def hasHighSurrogate (t : Text) : Bool := t.codes.any CodePoint.isHighSurrogate

theorem isAscii_iff {t : Text} : t.isAscii = true ↔ ∀ c ∈ t.codes, c.val < 0x80 := by
  simp [isAscii]

theorem hasHighSurrogate_eq_false_iff {t : Text} :
    t.hasHighSurrogate = false ↔ ∀ c ∈ t.codes, c.isHighSurrogate = false := by
  simp [hasHighSurrogate]

theorem isAscii_append (s t : Text) : (s ++ t).isAscii = (s.isAscii && t.isAscii) :=
  List.all_append

theorem isAscii_concat {ts : List Text} (h : ∀ t ∈ ts, t.isAscii = true) :
    (concat ts).isAscii = true := by
  rw [isAscii_iff, concat]
  intro c hc
  obtain ⟨t, ht, hct⟩ := List.mem_flatMap.mp hc
  exact isAscii_iff.mp (h t ht) c hct

end Text

theorem CodePoint.val_ofHexDigit_lt {d : Nat} (h : d < 16) : (ofHexDigit d).val < 0x80 := by
  unfold ofHexDigit
  split
  · rw [val_ofNat (by omega)]
    omega
  · rw [val_ofNat (by omega)]
    omega

theorem Text.isAscii_ofHex (width n : Nat) : (ofHex width n).isAscii = true := by
  induction width generalizing n with
  | zero => rfl
  | succ width ih =>
    have hdigit := CodePoint.val_ofHexDigit_lt (Nat.mod_lt n (by decide : 0 < 16))
    rw [ofHex, isAscii_append, ih, Bool.true_and, isAscii_iff]
    intro c hc
    rwa [List.mem_singleton.mp hc]

theorem CodePoint.isHighSurrogate_of_lt {c : CodePoint} (h : c.val < 0xD800) :
    c.isHighSurrogate = false := by
  have hlow : ¬0xD800 ≤ c.val := Nat.not_le.mpr h
  simp only [isHighSurrogate, hlow, decide_false, Bool.false_and]

theorem Text.encode?_of_isAscii {t : Text} (h : t.isAscii = true) :
    Utf8.encode? t = some (t.codes.flatMap Utf8.encode) := by
  have hnone : t.hasSurrogate = false := by
    rw [hasSurrogate, List.any_eq_false]
    intro c hc hsurrogate
    have hascii := isAscii_iff.mp h c hc
    have hrange := (CodePoint.isSurrogate_eq_true_iff c).mp hsurrogate
    omega
  rw [Utf8.encode?, hnone]
  rfl

theorem Text.hasHighSurrogate_of_isAscii {t : Text} (h : t.isAscii = true) :
    t.hasHighSurrogate = false := by
  rw [hasHighSurrogate_eq_false_iff]
  intro c hc
  have hascii := isAscii_iff.mp h c hc
  exact CodePoint.isHighSurrogate_of_lt (by omega)

namespace Utf8

/-- What holds of the characters and of all that is written for malformed pieces holds of the whole
text. -/
theorem forall_of_textOfPieces {P : CodePoint → Prop}
    {substitute : Bytes → Option (List CodePoint)} {ps : List Piece}
    (hchar : ∀ c, .char c ∈ ps → P c)
    (hsubstitute : ∀ bytes codes, substitute bytes = some codes → ∀ c ∈ codes, P c) {start : Nat}
    {codes : List CodePoint} (h : textOfPieces substitute start ps = .ok codes) :
    ∀ c ∈ codes, P c := by
  induction ps generalizing start codes with
  | nil =>
    cases h
    simp
  | cons p rest ih =>
    have hrest : ∀ {start : Nat} {codes : List CodePoint},
        textOfPieces substitute start rest = .ok codes → ∀ c ∈ codes, P c :=
      ih fun c hc => hchar c (List.mem_cons_of_mem p hc)
    cases p with
    | char c =>
      obtain ⟨more, hmore, rfl⟩ := Action.map_eq_ok_iff.mp h
      rw [List.forall_mem_cons]
      exact ⟨hchar c List.mem_cons_self, hrest hmore⟩
    | malformed reason bytes =>
      rw [textOfPieces] at h
      cases hwritten : substitute bytes with
      | none =>
        rw [hwritten] at h
        cases h
      | some written =>
        rw [hwritten] at h
        obtain ⟨more, hmore, rfl⟩ := Action.map_eq_ok_iff.mp h
        rw [List.forall_mem_append]
        exact ⟨hsubstitute bytes written hwritten, hrest hmore⟩

end Utf8

namespace Policy

theorem isHighSurrogate_of_substitute {p : Policy} {bytes : Bytes} {codes : List CodePoint}
    (h : p.substitute bytes = some codes) : ∀ c ∈ codes, c.isHighSurrogate = false := by
  cases p with
  | ignore =>
    cases h
    simp
  | replace =>
    cases h
    rw [List.forall_mem_singleton]
    rfl
  | backslashReplace =>
    cases h
    have hascii : ∀ b : UInt8, ("\\x" ++ Text.ofHex 2 b.toNat : Text).isAscii = true := by
      intro b
      rw [Text.isAscii_append, Text.isAscii_ofHex]
      decide
    intro c hc
    obtain ⟨b, _, hcb⟩ := List.mem_flatMap.mp hc
    have hclean := Text.hasHighSurrogate_of_isAscii (hascii b)
    exact Text.hasHighSurrogate_eq_false_iff.mp hclean c hcb
  | surrogateEscape =>
    cases h
    intro c hc
    obtain ⟨b, _, rfl⟩ := List.mem_map.mp hc
    simp only [CodePoint.isHighSurrogate, val_escapedByte, Bool.and_eq_false_iff,
      decide_eq_false_iff_not]
    omega
  | strict | surrogatePass | characterReference | characterName => cases h

theorem hasHighSurrogate_of_read {p : Policy} (hp : p ≠ .surrogatePass) {payload : Bytes} {t : Text}
    (h : p.read payload = .ok t) : t.hasHighSurrogate = false := by
  have hprepare : p.prepare (Utf8.pieces payload) = Utf8.pieces payload := by
    cases p with
    | surrogatePass => exact absurd rfl hp
    | _ => rfl
  rw [read, hprepare] at h
  cases hcodes : Utf8.textOfPieces p.substitute 0 (Utf8.pieces payload) with
  | error m =>
    rw [hcodes] at h
    cases h
  | ok codes =>
    rw [hcodes] at h
    cases h
    rw [Text.hasHighSurrogate_eq_false_iff]
    refine Utf8.forall_of_textOfPieces ?_ (fun _ _ => isHighSurrogate_of_substitute) hcodes
    intro c hc
    have hsound : c.isSurrogate = false := Utf8.sound_of_mem_pieces hc
    rw [CodePoint.isSurrogate, Bool.or_eq_false_iff] at hsound
    exact hsound.1

end Policy

end LuaBytecode
