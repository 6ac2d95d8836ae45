import LuaBytecode.Json.Printer
import LuaBytecode.Proofs.Text.Ascii
import Mathlib.Algebra.Group.Nat.Defs

/-!
# Quoted strings and their code units

A string is written as its UTF-16 code units, each by itself: a code point above the basic plane is
written as its two surrogates, and so would these two be. A quoted string can be read back unit by
unit up to the quotation mark that ends it. Thus it tells the code units of the string, and the
string itself where no code point is a high surrogate.
-/

namespace LuaBytecode

/-! ### Code units -/

namespace CodePoint

def highSurrogate (c : CodePoint) : CodePoint := .ofNat (0xD800 + (c.val - 0x10000) / 0x400)

def lowSurrogate (c : CodePoint) : CodePoint := .ofNat (0xDC00 + (c.val - 0x10000) % 0x400)

/-- The UTF-16 code units of a code point; a surrogate is its own. -/
def utf16 (c : CodePoint) : List CodePoint :=
  if c.val < 0x10000 then [c] else [c.highSurrogate, c.lowSurrogate]

theorem val_highSurrogate (c : CodePoint) :
    c.highSurrogate.val = 0xD800 + (c.val - 0x10000) / 0x400 := by
  have hlt := c.isLt
  exact val_ofNat (by omega)

theorem val_lowSurrogate (c : CodePoint) :
    c.lowSurrogate.val = 0xDC00 + (c.val - 0x10000) % 0x400 :=
  val_ofNat (by omega)

theorem val_lt_of_mem_utf16 {c u : CodePoint} (h : u ∈ c.utf16) : u.val < 0x10000 := by
  have hlt := c.isLt
  unfold utf16 at h
  split at h
  · rw [List.mem_singleton.mp h]
    assumption
  · rcases List.mem_cons.mp h with rfl | h
    · rw [val_highSurrogate]
      omega
    · rw [List.mem_singleton.mp h, val_lowSurrogate]
      omega

end CodePoint

theorem CodePoint.utf16_of_lt {c : CodePoint} (h : c.val < 0x10000) : c.utf16 = [c] := if_pos h

def Text.utf16 (t : Text) : Text := ⟨t.codes.flatMap CodePoint.utf16⟩

theorem Text.val_lt_of_mem_utf16 {t : Text} {u : CodePoint} (h : u ∈ t.utf16.codes) :
    u.val < 0x10000 := by
  obtain ⟨c, _, hu⟩ := List.mem_flatMap.mp h
  exact CodePoint.val_lt_of_mem_utf16 hu

/-- Code units are code units of themselves. -/
theorem Text.utf16_utf16 (t : Text) : t.utf16.utf16 = t.utf16 := by
  have hunits : ∀ us : List CodePoint, (∀ u ∈ us, u.val < 0x10000) →
      us.flatMap CodePoint.utf16 = us := by
    intro us hus
    induction us with
    | nil => rfl
    | cons u us ih =>
      rw [List.flatMap_cons, CodePoint.utf16_of_lt (hus u List.mem_cons_self),
        ih fun w hw => hus w (List.mem_cons_of_mem u hw), List.singleton_append]
  exact congrArg Text.mk (hunits _ fun u => val_lt_of_mem_utf16)

theorem CodePoint.isHighSurrogate_highSurrogate (c : CodePoint) :
    c.highSurrogate.isHighSurrogate = true := by
  have hlt := c.isLt
  simp only [isHighSurrogate, val_highSurrogate, Bool.and_eq_true, decide_eq_true_eq]
  omega

/-- The code units tell the code point that they begin with, unless it is a high surrogate. -/
theorem CodePoint.utf16_append_inj {c d : CodePoint} {x y : List CodePoint}
    (hc : c.isHighSurrogate = false) (hd : d.isHighSurrogate = false)
    (h : c.utf16 ++ x = d.utf16 ++ y) : c = d ∧ x = y := by
  unfold utf16 at h
  by_cases hplane : c.val < 0x10000
  · by_cases hplane' : d.val < 0x10000
    · rw [if_pos hplane, if_pos hplane'] at h
      exact List.cons.inj h
    · rw [if_pos hplane, if_neg hplane'] at h
      rw [(List.cons.inj h).1, isHighSurrogate_highSurrogate] at hc
      cases hc
  · by_cases hplane' : d.val < 0x10000
    · rw [if_neg hplane, if_pos hplane'] at h
      rw [← (List.cons.inj h).1, isHighSurrogate_highSurrogate] at hd
      cases hd
    · rw [if_neg hplane, if_neg hplane'] at h
      obtain ⟨hhigh, hrest⟩ := List.cons.inj h
      obtain ⟨hlow, hrest⟩ := List.cons.inj hrest
      have hhigh := congrArg Fin.val hhigh
      have hlow := congrArg Fin.val hlow
      rw [val_highSurrogate, val_highSurrogate] at hhigh
      rw [val_lowSurrogate, val_lowSurrogate] at hlow
      exact ⟨Fin.ext (by omega), hrest⟩

theorem CodePoint.utf16_append_ne_nil (c : CodePoint) (rest : List CodePoint) :
    c.utf16 ++ rest ≠ [] := by
  unfold utf16
  split <;> simp

/-- Without high surrogates no two texts have the same code units. -/
theorem Text.utf16_injective {s t : Text} (hs : s.hasHighSurrogate = false)
    (ht : t.hasHighSurrogate = false) (h : s.utf16 = t.utf16) : s = t := by
  rw [hasHighSurrogate_eq_false_iff] at hs ht
  have hcodes : ∀ cs ds : List CodePoint, (∀ c ∈ cs, c.isHighSurrogate = false) →
      (∀ d ∈ ds, d.isHighSurrogate = false) →
        cs.flatMap CodePoint.utf16 = ds.flatMap CodePoint.utf16 → cs = ds := by
    intro cs
    induction cs with
    | nil =>
      intro ds _ _ hunits
      cases ds with
      | nil => rfl
      | cons d ds => exact absurd hunits.symm (d.utf16_append_ne_nil _)
    | cons c cs ih =>
      intro ds hcs hds hunits
      cases ds with
      | nil => exact absurd hunits (c.utf16_append_ne_nil _)
      | cons d ds =>
        obtain ⟨rfl, hrest⟩ := CodePoint.utf16_append_inj (hcs c List.mem_cons_self)
          (hds d List.mem_cons_self) hunits
        rw [ih ds (fun x hx => hcs x (List.mem_cons_of_mem c hx))
          (fun x hx => hds x (List.mem_cons_of_mem c hx)) hrest]
  exact congrArg Text.mk (hcodes s.codes t.codes hs ht (congrArg codes h))

namespace Json

/-! ### Reading an escape -/

def backslash : CodePoint := .ofChar '\\'

def quotationMark : CodePoint := .ofChar '"'

def hexValue (cs : List CodePoint) : Nat :=
  cs.foldl (fun n c => 16 * n + (if c.val < 0x40 then c.val - 0x30 else c.val - 0x57)) 0

def unescape (c : CodePoint) : Nat :=
  if c = .ofChar 'n' then 0x0A
  else if c = .ofChar 'r' then 0x0D
  else if c = .ofChar 't' then 0x09
  else if c = .ofChar 'b' then 0x08
  else if c = .ofChar 'f' then 0x0C
  else c.val

/-- The code unit that an escape stands for, after its backslash, and what follows. -/
def readEscape? : List CodePoint → Option (Nat × List CodePoint)
  | [] => none
  | k :: rest =>
    if k = .ofChar 'u' then some (hexValue (rest.take 4), rest.drop 4) else some (unescape k, rest)

/-- The code unit that a quoted string goes on with, and what follows. -/
def readUnit? : List CodePoint → Option (Nat × List CodePoint)
  | [] => none
  | c :: rest => if c = backslash then readEscape? rest else some (c.val, rest)

theorem hexValue_append_digit (cs : List CodePoint) {d : Nat} (hd : d < 16) :
    hexValue (cs ++ [.ofHexDigit d]) = 16 * hexValue cs + d := by
  rw [hexValue, List.foldl_append]
  simp only [List.foldl_cons, List.foldl_nil, CodePoint.ofHexDigit]
  by_cases hten : d < 10
  · have hval : (CodePoint.ofNat (0x30 + d)).val = 0x30 + d := CodePoint.val_ofNat (by omega)
    rw [if_pos hten, hval, if_pos (by omega), Nat.add_sub_cancel_left]
    rfl
  · have hval : (CodePoint.ofNat (0x57 + d)).val = 0x57 + d := CodePoint.val_ofNat (by omega)
    rw [if_neg hten, hval, if_neg (by omega), Nat.add_sub_cancel_left]
    rfl

theorem hexValue_ofHex (width n : Nat) : hexValue (Text.ofHex width n).codes = n % 16 ^ width := by
  induction width generalizing n with
  | zero => rw [Nat.pow_zero, Nat.mod_one]; rfl
  | succ width ih =>
    rw [Text.ofHex, Text.codes_append, hexValue_append_digit _ (Nat.mod_lt n (by decide)), ih,
      Nat.pow_succ', Nat.mod_mul, Nat.add_comm]

theorem length_ofHex (width n : Nat) : (Text.ofHex width n).codes.length = width := by
  induction width generalizing n with
  | zero => rfl
  | succ width ih => rw [Text.ofHex, Text.codes_append, List.length_append, ih]; rfl

theorem readUnit?_escapeUnit {n : Nat} (h : n < 0x10000) (rest : List CodePoint) :
    readUnit? ((escapeUnit n).codes ++ rest) = some (n, rest) := by
  have hcodes : (escapeUnit n).codes ++ rest =
      backslash :: .ofChar 'u' :: ((Text.ofHex 4 n).codes ++ rest) := rfl
  have hlength := length_ofHex 4 n
  rw [hcodes, readUnit?, if_pos rfl, readEscape?, if_pos rfl, List.take_left' hlength,
    List.drop_left' hlength, hexValue_ofHex, Nat.mod_eq_of_lt (by omega)]

theorem readUnit?_escapeCode {c : CodePoint} (h : c.val < 0x10000) (rest : List CodePoint) :
    readUnit? ((escapeCode c).codes ++ rest) = some (c.val, rest) := by
  have hself : ∀ n, c.val = n → ∀ k : CodePoint, k ≠ .ofChar 'u' → unescape k = n →
      readUnit? (backslash :: k :: rest) = some (c.val, rest) := by
    rintro n rfl k hk hvalue
    rw [readUnit?, if_pos rfl, readEscape?, if_neg hk, hvalue]
  unfold escapeCode
  by_cases hquote : c = .ofChar '"'
  · rw [if_pos hquote]
    exact hself 0x22 (by rw [hquote]; decide) _ (by decide) (by decide)
  rw [if_neg hquote]
  by_cases hbackslash : c = .ofChar '\\'
  · rw [if_pos hbackslash]
    exact hself 0x5C (by rw [hbackslash]; decide) _ (by decide) (by decide)
  rw [if_neg hbackslash]
  by_cases hline : c.val = 0x0A
  · rw [if_pos hline]
    exact hself 0x0A hline _ (by decide) (by decide)
  rw [if_neg hline]
  by_cases hreturn : c.val = 0x0D
  · rw [if_pos hreturn]
    exact hself 0x0D hreturn _ (by decide) (by decide)
  rw [if_neg hreturn]
  by_cases htab : c.val = 0x09
  · rw [if_pos htab]
    exact hself 0x09 htab _ (by decide) (by decide)
  rw [if_neg htab]
  by_cases hback : c.val = 0x08
  · rw [if_pos hback]
    exact hself 0x08 hback _ (by decide) (by decide)
  rw [if_neg hback]
  by_cases hfeed : c.val = 0x0C
  · rw [if_pos hfeed]
    exact hself 0x0C hfeed _ (by decide) (by decide)
  rw [if_neg hfeed]
  by_cases hplain : 0x20 ≤ c.val ∧ c.val < 0x7F
  · rw [if_pos hplain]
    exact if_neg hbackslash
  rw [if_neg hplain, if_pos h]
  exact readUnit?_escapeUnit h rest

theorem escapeCode_quotationMark :
    (escapeCode quotationMark).codes = [backslash, quotationMark] := by
  decide

/-- What is escaped does not end the string. -/
theorem escapeCode_append_ne {c : CodePoint} (h : c.val < 0x10000) (rest more : List CodePoint) :
    (escapeCode c).codes ++ rest ≠ quotationMark :: more := by
  intro heq
  have hread := readUnit?_escapeCode h rest
  have hmark : readUnit? (quotationMark :: more) = some (quotationMark.val, more) := by
    rw [readUnit?, if_neg (by decide)]
  rw [heq, hmark, Option.some.injEq, Prod.mk.injEq] at hread
  obtain rfl : quotationMark = c := Fin.ext hread.1
  rw [escapeCode_quotationMark] at heq
  exact absurd (List.cons.inj heq).1 (by decide)

def escapes (us : List CodePoint) : List CodePoint := us.flatMap fun u => (escapeCode u).codes

theorem escapes_append_inj {us vs : List CodePoint} (hus : ∀ u ∈ us, u.val < 0x10000)
    (hvs : ∀ v ∈ vs, v.val < 0x10000) {x y : List CodePoint}
    (h : escapes us ++ quotationMark :: x = escapes vs ++ quotationMark :: y) :
    us = vs ∧ x = y := by
  induction us generalizing vs with
  | nil =>
    cases vs with
    | nil => exact ⟨rfl, (List.cons.inj h).2⟩
    | cons v vs =>
      rw [escapes, escapes, List.flatMap_nil, List.nil_append, List.flatMap_cons,
        List.append_assoc] at h
      exact absurd h.symm (escapeCode_append_ne (hvs v List.mem_cons_self) _ _)
  | cons u us ih =>
    cases vs with
    | nil =>
      rw [escapes, escapes, List.flatMap_nil, List.nil_append, List.flatMap_cons,
        List.append_assoc] at h
      exact absurd h (escapeCode_append_ne (hus u List.mem_cons_self) _ _)
    | cons v vs =>
      rw [escapes, escapes, List.flatMap_cons, List.flatMap_cons, List.append_assoc,
        List.append_assoc] at h
      have hread := readUnit?_escapeCode (hus u List.mem_cons_self)
        (escapes us ++ quotationMark :: x)
      rw [escapes, h, readUnit?_escapeCode (hvs v List.mem_cons_self), Option.some.injEq,
        Prod.mk.injEq] at hread
      obtain ⟨hunit, hrest⟩ := hread
      obtain ⟨rfl, rfl⟩ := ih (fun w hw => hus w (List.mem_cons_of_mem u hw))
        (fun w hw => hvs w (List.mem_cons_of_mem v hw)) hrest.symm
      exact ⟨by rw [Fin.ext hunit], rfl⟩

theorem escapeCode_of_le {c : CodePoint} (h : 0x7F ≤ c.val) :
    escapeCode c = if c.val < 0x10000 then escapeUnit c.val
      else escapeUnit (0xD800 + (c.val - 0x10000) / 0x400) ++
        escapeUnit (0xDC00 + (c.val - 0x10000) % 0x400) := by
  have hascii : ∀ d : CodePoint, d.val < 0x7F → ¬c = d := by
    rintro d hd rfl
    omega
  unfold escapeCode
  rw [if_neg (hascii _ (by decide)), if_neg (hascii _ (by decide)), if_neg (by omega),
    if_neg (by omega), if_neg (by omega), if_neg (by omega), if_neg (by omega), if_neg (by omega)]

/-- A code point is escaped as its code units are. -/
theorem escapes_utf16 (c : CodePoint) : escapes c.utf16 = (escapeCode c).codes := by
  unfold CodePoint.utf16
  by_cases hplane : c.val < 0x10000
  · rw [if_pos hplane, escapes, List.flatMap_cons, List.flatMap_nil, List.append_nil]
  · have hlt := c.isLt
    have hhigh : escapeCode c.highSurrogate = escapeUnit c.highSurrogate.val := by
      rw [escapeCode_of_le, if_pos] <;> rw [CodePoint.val_highSurrogate] <;> omega
    have hlow : escapeCode c.lowSurrogate = escapeUnit c.lowSurrogate.val := by
      rw [escapeCode_of_le, if_pos] <;> rw [CodePoint.val_lowSurrogate] <;> omega
    rw [if_neg hplane, escapeCode_of_le (by omega), if_neg hplane, escapes, List.flatMap_cons,
      List.flatMap_cons, List.flatMap_nil, List.append_nil, hhigh, hlow,
      CodePoint.val_highSurrogate, CodePoint.val_lowSurrogate]
    rfl

theorem codes_quote (t : Text) :
    (quote t).codes = quotationMark :: (escapes t.utf16.codes ++ [quotationMark]) := by
  have hescapes : escapes t.utf16.codes = (Text.concat (t.codes.map escapeCode)).codes := by
    rw [escapes, Text.utf16, Text.concat, List.flatMap_assoc, List.flatMap_map]
    congr 1
    funext c
    exact escapes_utf16 c
  rw [hescapes]
  rfl

theorem quote_append_inj {s t : Text} {x y : List CodePoint}
    (h : (quote s).codes ++ x = (quote t).codes ++ y) : s.utf16 = t.utf16 ∧ x = y := by
  rw [codes_quote, codes_quote] at h
  simp only [List.cons_append, List.append_assoc, List.nil_append, List.cons.injEq, true_and] at h
  obtain ⟨hunits, hrest⟩ := escapes_append_inj (fun u => Text.val_lt_of_mem_utf16)
    (fun v => Text.val_lt_of_mem_utf16) h
  exact ⟨congrArg Text.mk hunits, hrest⟩

theorem quote_eq_of_utf16 {s t : Text} (h : s.utf16 = t.utf16) : quote s = quote t := by
  have hcodes : (quote s).codes = (quote t).codes := by
    rw [codes_quote, codes_quote, h]
  exact congrArg Text.mk hcodes

end Json

end LuaBytecode
