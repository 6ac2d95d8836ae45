import LuaBytecode.Proofs.Text.Division
import Mathlib.Data.List.Basic
import Mathlib.Order.Bounds.Basic

/-!
# Where a policy refuses a byte string

Two policies refuse malformed strings. One of them passes the encodings of surrogates, so that it
has more characters than the other. Either reads exactly the encodings of texts of its characters.
From any other byte string it takes characters as long as there are any, and refuses what is left;
what it has taken is the longest beginning that it reads.
-/

namespace LuaBytecode

open Utf8 (Piece Malformed Broken Division encode pieces textOfPieces)

namespace Policy

def refusing : List Policy := [.strict, .surrogatePass]

/-- The policy takes the encoding of the code point for a character. -/
def Passes (p : Policy) (c : CodePoint) : Prop := p = .surrogatePass ∨ c.isSurrogate = false

/-! ### Encoded surrogates -/

/-- Three malformed pieces that encode a surrogate are its encoding. -/
theorem encode_of_encodedSurrogate? {q r s : Piece} {c : CodePoint}
    (h : encodedSurrogate? q r s = some c) : encode c = q.bytes ++ (r.bytes ++ s.bytes) := by
  unfold encodedSurrogate? at h
  split at h
  · rename_i _ a _ b _ d
    split at h
    · rename_i hbytes
      obtain ⟨ha, hb, hb', hd, hd'⟩ := hbytes
      have hval := CodePoint.val_ofNat (n := 0xD000 + (b.toNat - 0x80) * 64 + (d.toNat - 0x80))
        (by omega)
      rw [← Option.some.inj h]
      simp only [encode, hval, Piece.bytes]
      rw [if_neg (by omega), if_neg (by omega), if_pos (by omega),
        Utf8.ofNat_eq_byte a (by omega), Utf8.ofNat_eq_byte b (by omega),
        Utf8.ofNat_eq_byte d (by omega)]
      rfl
    · cases h
  · cases h

theorem exists_encode_surrogate {c : CodePoint} (hc : c.isSurrogate = true) :
    ∃ a b d : UInt8, encode c = [a, b, d] ∧ a.toNat = 0xED ∧
      (0xA0 ≤ b.toNat ∧ b.toNat ≤ 0xBF) ∧ (0x80 ≤ d.toNat ∧ d.toNat ≤ 0xBF) ∧
      c.val = 0xD000 + (b.toNat - 0x80) * 64 + (d.toNat - 0x80) := by
  obtain ⟨hlow, hhigh⟩ := (CodePoint.isSurrogate_eq_true_iff c).mp hc
  have ha := Utf8.toNat_ofNat_byte (n := 0xE0 + c.val / 4096) (by omega)
  have hb := Utf8.toNat_ofNat_byte (n := 0x80 + c.val / 64 % 64) (by omega)
  have hd := Utf8.toNat_ofNat_byte (n := 0x80 + c.val % 64) (by omega)
  refine ⟨UInt8.ofNat (0xE0 + c.val / 4096), UInt8.ofNat (0x80 + c.val / 64 % 64),
    UInt8.ofNat (0x80 + c.val % 64), ?_, by omega, by omega, by omega, by omega⟩
  simp only [encode]
  rw [if_neg (by omega), if_neg (by omega), if_pos (by omega)]

/-- A byte that only continues characters is cut off where no character is open. -/
theorem pieces_continuation {b : UInt8} (hb : 0x80 ≤ b.toNat ∧ b.toNat ≤ 0xBF) (rest : Bytes) :
    pieces (b :: rest) = .malformed .startByte [b] :: pieces rest := by
  have hstart : Utf8.startWith b = ([.malformed .startByte [b]], none) := by
    simp only [Utf8.startWith]
    rw [if_neg (by omega), if_pos (by omega)]
  rw [pieces, Utf8.piecesFrom_cons, Utf8.advance, hstart]
  rfl

/-- The encoding of a surrogate is cut into its bytes, which the second byte begins. -/
theorem pieces_encode_surrogate {c : CodePoint} (hc : c.isSurrogate = true) (rest : Bytes) :
    ∃ q r s : Piece, pieces (encode c ++ rest) = q :: r :: s :: pieces rest ∧
      encodedSurrogate? q r s = some c := by
  obtain ⟨a, b, d, hencode, ha, hb, hd, hval⟩ := exists_encode_surrogate hc
  have hheld : Utf8.startWith a = ([], some ⟨[a], a.toNat - 0xE0, 0x80, 0x9F, 1⟩) := by
    simp only [Utf8.startWith, ha]
    rfl
  refine ⟨.malformed .continuationByte [a], .malformed .startByte [b], .malformed .startByte [d],
    ?_, ?_⟩
  · have hbreak := Utf8.piecesFrom_break (p := ⟨[a], a.toNat - 0xE0, 0x80, 0x9F, 1⟩) (b := b)
      (by simp only; omega) (d :: rest)
    have hfirst : pieces (a :: b :: d :: rest) =
        .malformed .continuationByte [a] :: pieces (b :: d :: rest) := by
      rw [pieces, Utf8.piecesFrom_cons, Utf8.advance, hheld]
      exact hbreak
    rw [hencode, List.cons_append, List.cons_append, List.cons_append, List.nil_append, hfirst,
      pieces_continuation (by omega), pieces_continuation hd]
  · simp only [encodedSurrogate?]
    rw [if_pos ⟨ha, hb.1, hb.2, hd.1, hd.2⟩, ← hval]
    exact congrArg some (Fin.ofNat_val_eq_self c)

/-! ### Characters are read one after another -/

theorem passSurrogates_char (c : CodePoint) (ps : List Piece) :
    passSurrogates (.char c :: ps) = .char c :: passSurrogates ps := by
  match ps with
  | [] => rfl
  | [_] => rfl
  | _ :: _ :: _ => rfl

theorem prepare_char (p : Policy) (c : CodePoint) (ps : List Piece) :
    p.prepare (.char c :: ps) = .char c :: p.prepare ps := by
  cases p with
  | surrogatePass => exact passSurrogates_char c ps
  | _ => rfl

theorem prepare_pieces_encode {p : Policy} {c : CodePoint} (hc : p.Passes c) (rest : Bytes) :
    p.prepare (pieces (encode c ++ rest)) = .char c :: p.prepare (pieces rest) := by
  cases hsurrogate : c.isSurrogate with
  | false => rw [Utf8.pieces_encode_append hsurrogate, prepare_char]
  | true =>
    obtain rfl : p = .surrogatePass := hc.resolve_right (by simp [hsurrogate])
    obtain ⟨q, r, s, hpieces, hencoded⟩ := pieces_encode_surrogate hsurrogate rest
    rw [hpieces, prepare, passSurrogates, hencoded]
    rfl

theorem prepare_pieces_flatMap {p : Policy} {cs : List CodePoint} (hcs : ∀ c ∈ cs, p.Passes c)
    (rest : Bytes) :
    p.prepare (pieces (cs.flatMap encode ++ rest)) = cs.map .char ++ p.prepare (pieces rest) := by
  induction cs with
  | nil => rfl
  | cons c cs ih =>
    have htail := ih fun d hd => hcs d (List.mem_cons_of_mem c hd)
    rw [List.flatMap_cons, List.append_assoc, prepare_pieces_encode (hcs c List.mem_cons_self),
      htail]
    rfl

theorem flatMap_bytes_passSurrogates (ps : List Piece) :
    (passSurrogates ps).flatMap Piece.bytes = ps.flatMap Piece.bytes := by
  fun_induction passSurrogates ps with
  | case1 q r s rest c hencoded ih =>
    simp only [List.flatMap_cons, ih, Piece.bytes, encode_of_encodedSurrogate? hencoded,
      List.append_assoc]
  | case2 q r s rest hencoded ih =>
    rw [List.flatMap_cons, ih]
    rfl
  | case3 ps => rfl

/-- No byte is lost by what the policy makes of the pieces. -/
theorem flatMap_bytes_prepare (p : Policy) (data : Bytes) :
    (p.prepare (pieces data)).flatMap Piece.bytes = data := by
  cases p with
  | surrogatePass => exact (flatMap_bytes_passSurrogates _).trans (Utf8.flatMap_bytes_pieces data)
  | _ => exact Utf8.flatMap_bytes_pieces data

theorem passes_of_mem_prepare {p : Policy} {data : Bytes} {c : CodePoint}
    (h : .char c ∈ p.prepare (pieces data)) : p.Passes c := by
  cases p with
  | surrogatePass => exact .inl rfl
  | _ => exact .inr (Utf8.sound_of_mem_pieces h)

theorem flatMap_bytes_map_char (cs : List CodePoint) :
    (cs.map Piece.char).flatMap Piece.bytes = cs.flatMap encode := by
  rw [List.flatMap_map]
  rfl

/-! ### What is read, and what is refused -/

section

variable {p : Policy} (h : p ∈ refusing)

include h

theorem substitute_of_refusing (bytes : Bytes) : p.substitute bytes = none := by
  rcases List.mem_pair.mp h with rfl | rfl <;> rfl

theorem refuse_of_refusing (m : Malformed) : p.refuse m = .malformed m := by
  rcases List.mem_pair.mp h with rfl | rfl <;> rfl

theorem prepare_nil : p.prepare (pieces []) = [] := by
  rcases List.mem_pair.mp h with rfl | rfl <;> rfl

/-- What is read is the encoding of characters that the policy passes. -/
theorem read_eq_ok_iff {data : Bytes} {cs : List CodePoint} :
    p.read data = .ok ⟨cs⟩ ↔ (∀ c ∈ cs, p.Passes c) ∧ cs.flatMap encode = data := by
  constructor
  · intro hread
    have hcodes : textOfPieces p.substitute 0 (p.prepare (pieces data)) = .ok cs := by
      unfold read at hread
      split at hread
      · rename_i codes hcodes
        cases hread
        exact hcodes
      · cases hread
    have hchars := Utf8.eq_chars_of_textOfPieces (substitute_of_refusing h) hcodes
    refine ⟨fun c hc => ?_, ?_⟩
    · exact passes_of_mem_prepare (hchars ▸ List.mem_map_of_mem hc)
    · rw [← flatMap_bytes_map_char, ← hchars, flatMap_bytes_prepare]
  · rintro ⟨hpass, rfl⟩
    have hchars := prepare_pieces_flatMap hpass []
    rw [List.append_nil, prepare_nil h, List.append_nil] at hchars
    rw [read, hchars, Utf8.textOfPieces_chars]

end

end Policy

theorem Utf8.exists_of_textOfPieces_eq_error {substitute : Bytes → Option (List CodePoint)}
    (h : ∀ bytes, substitute bytes = none) {start : Nat} {ps : List Piece} {m : Malformed}
    (hm : textOfPieces substitute start ps = .error m) :
    ∃ (cs : List CodePoint) (tail : List Piece), ps = cs.map .char ++ .malformed m.reason m.bytes :: tail ∧
      m.start = start + (cs.flatMap encode).length := by
  induction ps generalizing start with
  | nil => cases hm
  | cons q rest ih =>
    cases q with
    | char c =>
      rw [textOfPieces] at hm
      cases hrest : textOfPieces substitute (start + (encode c).length) rest with
      | ok codes =>
        rw [hrest] at hm
        cases hm
      | error m' =>
        rw [hrest] at hm
        cases hm
        obtain ⟨cs, tail, rfl, hstart⟩ := ih hrest
        refine ⟨c :: cs, tail, rfl, ?_⟩
        rw [hstart, List.flatMap_cons, List.length_append, Nat.add_assoc]
    | malformed reason bytes =>
      simp only [textOfPieces, h bytes] at hm
      cases hm
      exact ⟨[], rest, rfl, rfl⟩

namespace Policy

/-- What a policy refuses a byte string for: the first bytes that begin no character of the policy,
after the characters that it takes. -/
structure RefusedFor (p : Policy) (data : Bytes) (m : Malformed) (cs : List CodePoint)
    (rest : Bytes) : Prop where
  passes : ∀ c ∈ cs, p.Passes c
  data_eq : data = cs.flatMap encode ++ (m.bytes ++ rest)
  start : m.start = (cs.flatMap encode).length
  broken : Broken m.reason m.bytes rest
  no_character : ∀ c, p.Passes c → ¬encode c <+: m.bytes ++ rest

section

variable {p : Policy} {data : Bytes} {m : Malformed} {cs : List CodePoint} {rest : Bytes}

theorem RefusedFor.drop_start (h : p.RefusedFor data m cs rest) :
    data.drop m.start = m.bytes ++ rest := by
  rw [h.data_eq, h.start, List.drop_left]

/-- Some bytes are refused, so that they begin before the end. -/
theorem RefusedFor.start_lt (h : p.RefusedFor data m cs rest) : m.start < data.length := by
  have hlength := congrArg List.length h.drop_start
  have hpos := List.length_pos_iff.mpr h.broken.ne_nil
  rw [List.length_drop, List.length_append] at hlength
  omega

end

theorem malformed_of_prepare {p : Policy} {ps tail : List Piece} {reason : Utf8.Reason}
    {bytes : Bytes} (h : p.prepare ps = .malformed reason bytes :: tail) :
    ∃ others, ps = .malformed reason bytes :: others := by
  cases p with
  | surrogatePass =>
    rw [prepare] at h
    unfold passSurrogates at h
    split at h
    · split at h
      · cases h
      · exact ⟨_, congrArg (· :: _) (List.cons.inj h).1⟩
    · exact ⟨_, h⟩
  | _ => exact ⟨_, h⟩

theorem exists_refusedFor {p : Policy} (h : p ∈ refusing) {data : Bytes} {f : TextFault}
    (hread : p.read data = .error f) :
    ∃ m cs rest, f = .malformed m ∧ p.RefusedFor data m cs rest := by
  unfold read at hread
  split at hread
  · cases hread
  rename_i m hm
  cases hread
  obtain ⟨cs, tail, hprepare, hstart⟩ :=
    Utf8.exists_of_textOfPieces_eq_error (substitute_of_refusing h) hm
  rw [Nat.zero_add] at hstart
  have hpass : ∀ c ∈ cs, p.Passes c := by
    intro c hc
    exact passes_of_mem_prepare
      (hprepare ▸ List.mem_append_left _ (List.mem_map_of_mem hc))
  have hdata : data = cs.flatMap encode ++ (m.bytes ++ tail.flatMap Piece.bytes) := by
    have hbytes := flatMap_bytes_prepare p data
    rw [hprepare, List.flatMap_append, flatMap_bytes_map_char, List.flatMap_cons] at hbytes
    exact hbytes.symm
  have hrest : p.prepare (pieces (m.bytes ++ tail.flatMap Piece.bytes)) =
      .malformed m.reason m.bytes :: tail := by
    rw [hdata, prepare_pieces_flatMap hpass] at hprepare
    exact List.append_cancel_left hprepare
  refine ⟨m, cs, _, refuse_of_refusing h m, hpass, hdata, hstart, ?_, ?_⟩
  · obtain ⟨others, hothers⟩ := malformed_of_prepare hrest
    obtain ⟨rest, hsplit, hbroken⟩ := (Utf8.division_iff.mpr hothers.symm).broken_head
    rw [List.append_cancel_left hsplit]
    exact hbroken
  · rintro c hc ⟨more, hmore⟩
    rw [← hmore, prepare_pieces_encode hc] at hrest
    cases (List.cons.inj hrest).1

theorem RefusedFor.isGreatest {p : Policy} (h : p ∈ refusing) {data : Bytes} {m : Malformed}
    {cs : List CodePoint} {rest : Bytes} (hr : p.RefusedFor data m cs rest) :
    IsGreatest {n | n ≤ data.length ∧ ∃ t, p.read (data.take n) = .ok t} m.start := by
  have hlength : data.length = m.start + (m.bytes ++ rest).length := by
    rw [hr.data_eq, hr.start, List.length_append]
  refine ⟨⟨by omega, ⟨cs⟩, ?_⟩, ?_⟩
  · rw [read_eq_ok_iff h, hr.data_eq, hr.start, List.take_left]
    exact ⟨hr.passes, rfl⟩
  · rintro n ⟨hn, ⟨ds⟩, hread⟩
    refine Nat.le_of_not_lt fun hlong => ?_
    obtain ⟨hpass, hds⟩ := (read_eq_ok_iff h).mp hread
    have htake : data.take n =
        cs.flatMap encode ++ (m.bytes ++ rest).take (n - m.start) := by
      rw [hr.data_eq, hr.start, List.take_append, List.take_of_length_le (hr.start ▸ hlong.le)]
    have hchars := prepare_pieces_flatMap hpass []
    rw [List.append_nil, hds, htake, prepare_pieces_flatMap hr.passes, prepare_nil h,
      List.append_nil] at hchars
    obtain ⟨_, es, rfl, _, hes⟩ := List.map_eq_append_iff.mp hchars.symm
    have hextra := flatMap_bytes_prepare p ((m.bytes ++ rest).take (n - m.start))
    rw [← hes, flatMap_bytes_map_char] at hextra
    cases es with
    | nil =>
      have hempty := congrArg List.length hextra
      rw [List.flatMap_nil, List.length_nil, List.length_take] at hempty
      omega
    | cons e es =>
      refine hr.no_character e (hpass e (List.mem_append_right _ List.mem_cons_self)) ?_
      rw [List.flatMap_cons] at hextra
      exact (hextra ▸ List.prefix_append _ _).trans (List.take_prefix _ _)

end Policy

end LuaBytecode
