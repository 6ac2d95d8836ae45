import LuaBytecode.Proofs.Decimal.Written
import LuaBytecode.Proofs.Json.Escapes

/-!
# Printed JSON tells its value

The first character of a printed value tells its kind, a number ends before the first character that
is no part of one, and a string at its quotation mark. So values can be read off a printed text one
after another. If each item stands on a line of its own, the text tells the value, with every string
as its code units.
-/

namespace LuaBytecode.Json

mutual

/-- The value with the code units of its strings in place of the strings. -/
def utf16 : Json → Json
  | .string t => .string t.utf16
  | .array items => .array (utf16Items items)
  | .object members => .object (utf16Members members)
  | .null => .null
  | .bool b => .bool b
  | .int n => .int n
  | .float x => .float x

def utf16Items : List Json → List Json
  | [] => []
  | item :: items => utf16 item :: utf16Items items

def utf16Members : List (Text × Json) → List (Text × Json)
  | [] => []
  | (name, value) :: members => (name.utf16, utf16 value) :: utf16Members members

end

mutual

/-- Every number of the value satisfies `number`, and every string and every name `text`. -/
def Holds (number : Binary64 → Prop) (text : Text → Prop) : Json → Prop
  | .float x => number x
  | .string t => text t
  | .array items => HoldsItems number text items
  | .object members => HoldsMembers number text members
  | .null => True
  | .bool _ => True
  | .int _ => True

def HoldsItems (number : Binary64 → Prop) (text : Text → Prop) : List Json → Prop
  | [] => True
  | item :: items => Holds number text item ∧ HoldsItems number text items

def HoldsMembers (number : Binary64 → Prop) (text : Text → Prop) : List (Text × Json) → Prop
  | [] => True
  | (name, value) :: members =>
    text name ∧ Holds number text value ∧ HoldsMembers number text members

end

theorem holdsItems_iff {number : Binary64 → Prop} {text : Text → Prop} {items : List Json} :
    HoldsItems number text items ↔ ∀ item ∈ items, item.Holds number text := by
  induction items with
  | nil => simp [HoldsItems]
  | cons item items ih => rw [HoldsItems, ih, List.forall_mem_cons]

/-- No number of the value is infinite or NaN. -/
def Finite (v : Json) : Prop := v.Holds (fun x => x.isFinite = true) fun _ => True

def FiniteItems (items : List Json) : Prop :=
  HoldsItems (fun x => x.isFinite = true) (fun _ => True) items

def FiniteMembers (members : List (Text × Json)) : Prop :=
  HoldsMembers (fun x => x.isFinite = true) (fun _ => True) members

/-! ### The kind of a value -/

inductive Kind where
  | null
  | bool
  | number
  | string
  | array
  | object
  deriving DecidableEq

def kind : Json → Kind
  | .null => .null
  | .bool _ => .bool
  | .int _ => .number
  | .float _ => .number
  | .string _ => .string
  | .array _ => .array
  | .object _ => .object

/-- The kind of a value by its first character. -/
def kindOf (c : CodePoint) : Kind :=
  if c.isNumeric then .number
  else if c = .ofChar 'n' then .null
  else if c = quotationMark then .string
  else if c = .ofChar '[' then .array
  else if c = .ofChar '\x7b' then .object
  else .bool

theorem floatText_of_finite {x : Binary64} (hx : x.isFinite = true) : floatText x = x.toText := by
  rw [floatText, Binary64.isNaN_of_isFinite hx, hx, if_neg Bool.false_ne_true, if_pos rfl]

theorem exists_kindOf {cs : List CodePoint} (hne : cs ≠ []) (h : ∀ c ∈ cs, c.isNumeric = true)
    (x : List CodePoint) : ∃ c rest, cs ++ x = c :: rest ∧ kindOf c = .number := by
  obtain ⟨c, rest, rfl⟩ := List.exists_cons_of_ne_nil hne
  exact ⟨c, rest ++ x, rfl, if_pos (h c List.mem_cons_self)⟩

theorem kindOf_render (layout : Layout) (depth : Nat) {v : Json} (hv : v.Finite)
    (x : List CodePoint) :
    ∃ c rest, render layout depth v x = c :: rest ∧ kindOf c = v.kind := by
  cases v with
  | null => exact ⟨_, _, rfl, by decide⟩
  | bool b => cases b <;> exact ⟨_, _, rfl, by decide⟩
  | int n =>
    refine exists_kindOf ?_ (Text.isNumeric_ofInt n) x
    rw [Text.codes_ofInt]
    simp [Decimal.digits_ne_nil]
  | float y =>
    have hfinite : y.isFinite = true := hv
    obtain ⟨c, hc, _⟩ := Binary64.exists_mark_toText hfinite
    rw [render, floatText_of_finite hfinite]
    exact exists_kindOf (List.ne_nil_of_mem hc) (Binary64.isNumeric_toText hfinite) x
  | string t =>
    have hkind : kindOf quotationMark = .string := by decide
    exact ⟨_, _, rfl, hkind⟩
  | array items =>
    have hkind : kindOf (.ofChar '[') = .array := by decide
    cases items <;> exact ⟨_, _, rfl, hkind⟩
  | object members =>
    have hkind : kindOf (.ofChar '\x7b') = .object := by decide
    cases members <;> exact ⟨_, _, rfl, hkind⟩

variable {layout : Layout} {depth : Nat}

theorem kind_eq_of_render {v w : Json} (hv : v.Finite) (hw : w.Finite) {x y : List CodePoint}
    (h : render layout depth v x = render layout depth w y) : v.kind = w.kind := by
  obtain ⟨c, rest, hc, hkind⟩ := kindOf_render layout depth hv x
  obtain ⟨d, more, hd, hkind'⟩ := kindOf_render layout depth hw y
  rw [hc, hd] at h
  rw [← hkind, ← hkind', (List.cons.inj h).1]

/-! ### Values one after another -/

/-- The text does not go on with a character of a number. -/
def Ends (x : List CodePoint) : Prop := ∀ c ∈ x.head?, c.isNumeric = false

theorem append_inj_of_numeric {as bs x y : List CodePoint} (has : ∀ c ∈ as, c.isNumeric = true)
    (hbs : ∀ c ∈ bs, c.isNumeric = true) (hx : Ends x) (hy : Ends y) (h : as ++ x = bs ++ y) :
    as = bs ∧ x = y := by
  induction as generalizing bs with
  | nil =>
    cases bs with
    | nil => exact ⟨rfl, h⟩
    | cons b bs =>
      have hb := hx b (by rw [← List.nil_append x, h]; rfl)
      rw [hbs b List.mem_cons_self] at hb
      cases hb
  | cons a as ih =>
    cases bs with
    | nil =>
      have ha := hy a (by rw [← List.nil_append y, ← h]; rfl)
      rw [has a List.mem_cons_self] at ha
      cases ha
    | cons b bs =>
      obtain ⟨rfl, hrest⟩ := List.cons.inj h
      obtain ⟨rfl, rfl⟩ := ih (fun c hc => has c (List.mem_cons_of_mem a hc))
        (fun c hc => hbs c (List.mem_cons_of_mem a hc)) hrest
      exact ⟨rfl, rfl⟩

theorem ofInt_append_inj {m n : Int} {x y : List CodePoint} (hx : Ends x) (hy : Ends y)
    (h : (Text.ofInt m).codes ++ x = (Text.ofInt n).codes ++ y) : m = n ∧ x = y := by
  obtain ⟨htext, hrest⟩ := append_inj_of_numeric (Text.isNumeric_ofInt m) (Text.isNumeric_ofInt n)
    hx hy h
  exact ⟨Text.ofInt_injective (congrArg Text.mk htext), hrest⟩

theorem toText_append_inj {a b : Binary64} (ha : a.isFinite = true) (hb : b.isFinite = true)
    {x y : List CodePoint} (hx : Ends x) (hy : Ends y)
    (h : a.toText.codes ++ x = b.toText.codes ++ y) : a = b ∧ x = y := by
  obtain ⟨htext, hrest⟩ := append_inj_of_numeric (Binary64.isNumeric_toText ha)
    (Binary64.isNumeric_toText hb) hx hy h
  exact ⟨Binary64.toText_injective ha hb (congrArg Text.mk htext), hrest⟩

/-- An integer is not written as a double is, even one of the same value. -/
theorem ofInt_append_ne {n : Int} {a : Binary64} (ha : a.isFinite = true) {x y : List CodePoint}
    (hx : Ends x) (hy : Ends y) : (Text.ofInt n).codes ++ x ≠ a.toText.codes ++ y := by
  intro h
  obtain ⟨htext, _⟩ := append_inj_of_numeric (Text.isNumeric_ofInt n) (Binary64.isNumeric_toText ha)
    hx hy h
  obtain ⟨c, hc, hmark⟩ := Binary64.exists_mark_toText ha
  rw [← htext] at hc
  exact Text.not_mark_ofInt n c hc hmark

def lineFeed : CodePoint := .ofNat 0x0A

def comma : CodePoint := .ofChar ','

/-- Each item stands on a line of its own. -/
def Layout.BreaksLines (layout : Layout) : Prop :=
  ∀ depth, ∃ rest, (layout.lineBreak depth).codes = lineFeed :: rest

theorem Layout.breaksLines_indented (width : Int) : (indented width).BreaksLines :=
  fun _ => ⟨_, rfl⟩

/-- What closes an array or an object goes to a new line. -/
def Closing (x : List CodePoint) : Prop := ∃ rest, x = lineFeed :: rest

theorem Layout.BreaksLines.closing (h : layout.BreaksLines) (depth : Nat) (x : List CodePoint) :
    Closing ((layout.lineBreak depth).codes ++ x) := by
  obtain ⟨rest, hrest⟩ := h depth
  exact ⟨rest ++ x, by rw [hrest, List.cons_append]⟩

theorem ends_cons {c : CodePoint} (hc : c.isNumeric = false) (x : List CodePoint) :
    Ends (c :: x) := by
  intro d hd
  cases hd
  exact hc

theorem ends_renderItems {x : List CodePoint} (hx : Closing x) (items : List Json) :
    Ends (renderItems layout depth items x) := by
  obtain ⟨rest, rfl⟩ := hx
  cases items <;> exact ends_cons (by decide) _

theorem ends_renderMembers {x : List CodePoint} (hx : Closing x) (members : List (Text × Json)) :
    Ends (renderMembers layout depth members x) := by
  obtain ⟨rest, rfl⟩ := hx
  cases members <;> exact ends_cons (by decide) _

theorem Closing.ne_cons {x : List CodePoint} (hx : Closing x) {c : CodePoint} (hc : c ≠ lineFeed)
    (y : List CodePoint) : x ≠ c :: y := by
  obtain ⟨rest, rfl⟩ := hx
  intro h
  exact hc (List.cons.inj h).1.symm

/-! ### Reading back -/

theorem render_object_cons (name : Text) (value : Json) (members : List (Text × Json))
    (x : List CodePoint) :
    render layout depth (.object ((name, value) :: members)) x =
      .ofChar '\x7b' :: ((layout.lineBreak (depth + 1)).codes ++ ((quote name).codes ++
        (layout.colon.codes ++ render layout (depth + 1) value
          (renderMembers layout (depth + 1) members
            ((layout.lineBreak depth).codes ++ .ofChar '\x7d' :: x))))) := by
  simp only [render, List.append_assoc, List.cons_append]

theorem renderMembers_cons (name : Text) (value : Json) (members : List (Text × Json))
    (x : List CodePoint) :
    renderMembers layout depth ((name, value) :: members) x =
      comma :: ((layout.lineBreak depth).codes ++ ((quote name).codes ++ (layout.colon.codes ++
        render layout depth value (renderMembers layout depth members x)))) := by
  simp only [renderMembers, comma, List.append_assoc, List.cons_append]

mutual

/-- A printed value can be read back, as far as its code units, from a text that goes on after it
with no character of a number. -/
theorem render_inj (hlayout : layout.BreaksLines) : (v : Json) → {w : Json} → {depth : Nat} →
    {x y : List CodePoint} → v.Finite → w.Finite → Ends x → Ends y →
      render layout depth v x = render layout depth w y → v.utf16 = w.utf16 ∧ x = y
  | .null, w, depth, x, y, hv, hw, _, _, h => by
    have hkind := kind_eq_of_render hv hw h
    cases w with
    | null => exact ⟨rfl, List.append_cancel_left h⟩
    | _ => cases hkind
  | .bool b, w, depth, x, y, hv, hw, _, _, h => by
    have hkind := kind_eq_of_render hv hw h
    cases w with
    | bool c =>
      cases b <;> cases c
      · exact ⟨rfl, List.append_cancel_left h⟩
      · exact absurd (List.cons.inj h).1 (by decide)
      · exact absurd (List.cons.inj h).1 (by decide)
      · exact ⟨rfl, List.append_cancel_left h⟩
    | _ => cases hkind
  | .int m, w, depth, x, y, hv, hw, hx, hy, h => by
    have hkind := kind_eq_of_render hv hw h
    cases w with
    | int n =>
      obtain ⟨rfl, hrest⟩ := ofInt_append_inj hx hy h
      exact ⟨rfl, hrest⟩
    | float b =>
      rw [render, render, floatText_of_finite hw] at h
      exact absurd h (ofInt_append_ne hw hx hy)
    | _ => cases hkind
  | .float a, w, depth, x, y, hv, hw, hx, hy, h => by
    have hkind := kind_eq_of_render hv hw h
    rw [render, floatText_of_finite hv] at h
    cases w with
    | int n => exact absurd h.symm (ofInt_append_ne hv hy hx)
    | float b =>
      rw [render, floatText_of_finite hw] at h
      obtain ⟨rfl, hrest⟩ := toText_append_inj hv hw hx hy h
      exact ⟨rfl, hrest⟩
    | _ => cases hkind
  | .string s, w, depth, x, y, hv, hw, _, _, h => by
    have hkind := kind_eq_of_render hv hw h
    cases w with
    | string t =>
      obtain ⟨hunits, hrest⟩ := quote_append_inj h
      exact ⟨congrArg Json.string hunits, hrest⟩
    | _ => cases hkind
  | .array [], w, depth, x, y, hv, hw, _, _, h => by
    have hkind := kind_eq_of_render hv hw h
    cases w with
    | array items =>
      cases items with
      | nil => exact ⟨rfl, List.append_cancel_left h⟩
      | cons item items =>
        -- An item goes to a new line, so that only an empty array closes at once.
        exact absurd (List.cons.inj h).2.symm
          ((hlayout.closing (depth + 1) _).ne_cons (by decide) x)
    | _ => cases hkind
  | .array (item :: items), w, depth, x, y, hv, hw, _, _, h => by
    have hkind := kind_eq_of_render hv hw h
    cases w with
    | array others =>
      cases others with
      | nil =>
        exact absurd (List.cons.inj h).2
          ((hlayout.closing (depth + 1) _).ne_cons (by decide) y)
      | cons other others =>
        -- What follows an item is a comma or a new line: neither can belong to a number.
        have hclosing := hlayout.closing depth
        have hitems := List.append_cancel_left (List.cons.inj h).2
        obtain ⟨hitem, hitems⟩ := render_inj hlayout item hv.1 hw.1
          (ends_renderItems (hclosing _) items) (ends_renderItems (hclosing _) others) hitems
        obtain ⟨hitems, hrest⟩ := renderItems_inj hlayout items hv.2 hw.2 (hclosing _) (hclosing _)
          hitems
        refine ⟨?_, (List.cons.inj (List.append_cancel_left hrest)).2⟩
        rw [utf16, utf16, utf16Items, utf16Items, hitem, hitems]
    | _ => cases hkind
  | .object [], w, depth, x, y, hv, hw, _, _, h => by
    have hkind := kind_eq_of_render hv hw h
    cases w with
    | object members =>
      cases members with
      | nil => exact ⟨rfl, List.append_cancel_left h⟩
      | cons member members =>
        rw [render_object_cons] at h
        exact absurd (List.cons.inj h).2.symm
          ((hlayout.closing (depth + 1) _).ne_cons (by decide) x)
    | _ => cases hkind
  | .object ((name, value) :: members), w, depth, x, y, hv, hw, _, _, h => by
    have hkind := kind_eq_of_render hv hw h
    cases w with
    | object others =>
      rw [render_object_cons] at h
      cases others with
      | nil =>
        exact absurd (List.cons.inj h).2
          ((hlayout.closing (depth + 1) _).ne_cons (by decide) y)
      | cons other others =>
        rw [render_object_cons] at h
        have hmembers := List.append_cancel_left (List.cons.inj h).2
        have hclosing := hlayout.closing depth
        obtain ⟨hname, hmembers⟩ := quote_append_inj hmembers
        obtain ⟨hvalue, hmembers⟩ := render_inj hlayout value hv.2.1 hw.2.1
          (ends_renderMembers (hclosing _) members) (ends_renderMembers (hclosing _) others)
          (List.append_cancel_left hmembers)
        obtain ⟨hmembers, hrest⟩ := renderMembers_inj hlayout members hv.2.2 hw.2.2
          (hclosing _) (hclosing _) hmembers
        refine ⟨?_, (List.cons.inj (List.append_cancel_left hrest)).2⟩
        rw [utf16, utf16, utf16Members, utf16Members, hname, hvalue, hmembers]
    | _ => cases hkind

theorem renderItems_inj (hlayout : layout.BreaksLines) : (items : List Json) →
    {others : List Json} → {depth : Nat} → {x y : List CodePoint} → FiniteItems items →
      FiniteItems others → Closing x → Closing y →
        renderItems layout depth items x = renderItems layout depth others y →
          utf16Items items = utf16Items others ∧ x = y
  | [], others, depth, x, y, _, _, hx, _, h => by
    cases others with
    | nil => exact ⟨rfl, h⟩
    | cons other others => exact absurd h (hx.ne_cons (by decide) _)
  | item :: items, others, depth, x, y, hv, hw, hx, hy, h => by
    cases others with
    | nil => exact absurd h.symm (hy.ne_cons (by decide) _)
    | cons other others =>
      have hitems := List.append_cancel_left (List.cons.inj h).2
      obtain ⟨hitem, hitems⟩ := render_inj hlayout item hv.1 hw.1 (ends_renderItems hx items)
        (ends_renderItems hy others) hitems
      obtain ⟨hitems, hrest⟩ := renderItems_inj hlayout items hv.2 hw.2 hx hy hitems
      exact ⟨by rw [utf16Items, utf16Items, hitem, hitems], hrest⟩

theorem renderMembers_inj (hlayout : layout.BreaksLines) : (members : List (Text × Json)) →
    {others : List (Text × Json)} → {depth : Nat} → {x y : List CodePoint} →
      FiniteMembers members → FiniteMembers others → Closing x → Closing y →
        renderMembers layout depth members x = renderMembers layout depth others y →
          utf16Members members = utf16Members others ∧ x = y
  | [], others, depth, x, y, _, _, hx, _, h => by
    cases others with
    | nil => exact ⟨rfl, h⟩
    | cons other others =>
      rw [renderMembers_cons] at h
      exact absurd h (hx.ne_cons (by decide) _)
  | (name, value) :: members, others, depth, x, y, hv, hw, hx, hy, h => by
    rw [renderMembers_cons] at h
    cases others with
    | nil => exact absurd h.symm (hy.ne_cons (by decide) _)
    | cons other others =>
      rw [renderMembers_cons] at h
      have hmembers := List.append_cancel_left (List.cons.inj h).2
      obtain ⟨hname, hmembers⟩ := quote_append_inj hmembers
      obtain ⟨hvalue, hmembers⟩ := render_inj hlayout value hv.2.1 hw.2.1
        (ends_renderMembers hx members) (ends_renderMembers hy others)
        (List.append_cancel_left hmembers)
      obtain ⟨hmembers, hrest⟩ := renderMembers_inj hlayout members hv.2.2 hw.2.2 hx hy hmembers
      exact ⟨by rw [utf16Members, utf16Members, hname, hvalue, hmembers], hrest⟩

end

/-! ### What printing leaves out -/

mutual

/-- Only the code units of strings are printed. -/
theorem render_utf16 : (v : Json) → (depth : Nat) → (x : List CodePoint) →
    render layout depth v.utf16 x = render layout depth v x
  | .null, _, _ => rfl
  | .bool _, _, _ => rfl
  | .int _, _, _ => rfl
  | .float _, _, _ => rfl
  | .string t, depth, x => by
    rw [utf16, render, render, quote_eq_of_utf16 t.utf16_utf16]
  | .array [], _, _ => rfl
  | .array (item :: items), depth, x => by
    rw [utf16, utf16Items, render, render, render_utf16 item, renderItems_utf16 items]
  | .object [], _, _ => rfl
  | .object ((name, value) :: members), depth, x => by
    rw [utf16, utf16Members, render, render, quote_eq_of_utf16 name.utf16_utf16,
      render_utf16 value, renderMembers_utf16 members]

theorem renderItems_utf16 : (items : List Json) → (depth : Nat) → (x : List CodePoint) →
    renderItems layout depth (utf16Items items) x = renderItems layout depth items x
  | [], _, _ => rfl
  | item :: items, depth, x => by
    rw [utf16Items, renderItems, renderItems, render_utf16 item, renderItems_utf16 items]

theorem renderMembers_utf16 : (members : List (Text × Json)) → (depth : Nat) →
    (x : List CodePoint) →
      renderMembers layout depth (utf16Members members) x = renderMembers layout depth members x
  | [], _, _ => rfl
  | (name, value) :: members, depth, x => by
    rw [utf16Members, renderMembers, renderMembers, quote_eq_of_utf16 name.utf16_utf16,
      render_utf16 value, renderMembers_utf16 members]

end

/-! ### Values told by their code units -/

/-- No string of the value has a high surrogate. -/
def Plain (v : Json) : Prop := v.Holds (fun _ => True) fun t => t.hasHighSurrogate = false

mutual

/-- Without high surrogates no two values agree in the code units of their strings. -/
theorem utf16_inj : (v : Json) → {w : Json} → v.Plain → w.Plain → v.utf16 = w.utf16 → v = w
  | .null, w, _, _, h => by
    cases w with
    | null => rfl
    | _ => cases h
  | .bool b, w, _, _, h => by
    cases w with
    | bool c =>
      cases h
      rfl
    | _ => cases h
  | .int m, w, _, _, h => by
    cases w with
    | int n =>
      cases h
      rfl
    | _ => cases h
  | .float a, w, _, _, h => by
    cases w with
    | float b =>
      cases h
      rfl
    | _ => cases h
  | .string s, w, hv, hw, h => by
    cases w with
    | string t => rw [Text.utf16_injective hv hw (string.inj h)]
    | _ => cases h
  | .array items, w, hv, hw, h => by
    cases w with
    | array others => rw [utf16Items_inj items hv hw (array.inj h)]
    | _ => cases h
  | .object members, w, hv, hw, h => by
    cases w with
    | object others => rw [utf16Members_inj members hv hw (object.inj h)]
    | _ => cases h

theorem utf16Items_inj : (items : List Json) → {others : List Json} →
    HoldsItems (fun _ => True) (fun t => t.hasHighSurrogate = false) items →
      HoldsItems (fun _ => True) (fun t => t.hasHighSurrogate = false) others →
        utf16Items items = utf16Items others → items = others
  | [], others, _, _, h => by
    cases others with
    | nil => rfl
    | cons other others => cases h
  | item :: items, others, hv, hw, h => by
    cases others with
    | nil => cases h
    | cons other others =>
      obtain ⟨hitem, hitems⟩ := List.cons.inj h
      rw [utf16_inj item hv.1 hw.1 hitem, utf16Items_inj items hv.2 hw.2 hitems]

theorem utf16Members_inj : (members : List (Text × Json)) → {others : List (Text × Json)} →
    HoldsMembers (fun _ => True) (fun t => t.hasHighSurrogate = false) members →
      HoldsMembers (fun _ => True) (fun t => t.hasHighSurrogate = false) others →
        utf16Members members = utf16Members others → members = others
  | [], others, _, _, h => by
    cases others with
    | nil => rfl
    | cons other others => cases h
  | (name, value) :: members, others, hv, hw, h => by
    cases others with
    | nil => cases h
    | cons other others =>
      obtain ⟨hmember, hmembers⟩ := List.cons.inj h
      obtain ⟨hname, hvalue⟩ := Prod.mk.inj hmember
      rw [Text.utf16_injective hv.1 hw.1 hname, utf16_inj value hv.2.1 hw.2.1 hvalue,
        utf16Members_inj members hv.2.2 hw.2.2 hmembers]

end

/-- Two values without infinities and NaNs are printed alike just if they agree as far as the code
units of their strings. -/
theorem print_eq_iff (hlayout : layout.BreaksLines) {v w : Json} (hv : v.Finite) (hw : w.Finite) :
    print layout v = print layout w ↔ v.utf16 = w.utf16 := by
  constructor
  · intro h
    have hempty : Ends [] := fun c hc => by cases hc
    exact (render_inj hlayout v hv hw hempty hempty (congrArg Text.codes h)).1
  · intro h
    rw [print, print, ← render_utf16 v, h, render_utf16 w]

end LuaBytecode.Json
