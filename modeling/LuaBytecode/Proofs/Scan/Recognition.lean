import LuaBytecode.Scan.Basic

/-!
# The language of a scan

A scan recognizes a language of byte strings, each with the value it stands for: wherever it starts,
it succeeds exactly if what is left of the data begins with one of them, and then it has passed over
that string and no more. A format gives such a language by writing: each of its terms is written as
bytes and may stand for a value.

Recognition is closed under the combinators that scans are made of, so that a scan built from
recognizing parts recognizes what the parts say one after another.
-/

namespace LuaBytecode

abbrev Language (α : Type) := Bytes → α → Prop

namespace Language

variable {α β : Type}

/-- A word of one language and, after it, a word of the language that its value selects. -/
def bind (L : Language α) (K : α → Language β) : Language β := fun word b =>
  ∃ front a rest, L front a ∧ K a rest b ∧ word = front ++ rest

/-- The empty string, standing for `a`. -/
def pure (a : α) : Language α := fun word b => word = [] ∧ b = a

/-- Every word has at least `n` bytes. -/
def AtLeast (L : Language α) (n : Nat) : Prop := ∀ word a, L word a → n ≤ word.length

theorem atLeast_zero (L : Language α) : L.AtLeast 0 := fun _ _ _ => Nat.zero_le _

end Language

/-- Terms that are written as bytes. Not every term need fit into the space that its parts are
given, and not every term need stand for a value. -/
structure Format (τ α : Type) where
  bytes : τ → Bytes
  Fits : τ → Prop
  value? : τ → Option α

namespace Format

variable {τ α : Type}

/-- What is written by the terms that fit, with their values. -/
def language (F : Format τ α) : Language α := fun word a =>
  ∃ t, F.Fits t ∧ F.value? t = some a ∧ word = F.bytes t

/-- `count` terms, one written after another. -/
def repeated (F : Format τ α) (count : Nat) : Format (List τ) (List α) where
  bytes ts := ts.flatMap F.bytes
  Fits ts := ts.length = count ∧ ∀ t ∈ ts, F.Fits t
  value? ts := ts.mapM F.value?

theorem repeated_language_succ (F : Format τ α) (count : Nat) (word : Bytes) (as : List α) :
    (F.repeated (count + 1)).language word as ↔
      F.language.bind (fun a word as => ∃ rest, (F.repeated count).language word rest ∧
        as = a :: rest) word as := by
  constructor
  · intro h
    obtain ⟨ts, ⟨hlength, hfits⟩, hvalue, rfl⟩ := h
    cases ts with
    | nil => simp at hlength
    | cons t rest =>
      simp only [repeated, List.mapM_cons, Option.bind_eq_bind, Option.bind_eq_some_iff] at hvalue
      obtain ⟨a, ha, others, hothers, has⟩ := hvalue
      have hrest : (F.repeated count).language (rest.flatMap F.bytes) others :=
        ⟨rest, ⟨by simpa using hlength, fun u hu => hfits u (List.mem_cons_of_mem t hu)⟩, hothers,
          rfl⟩
      exact ⟨F.bytes t, a, _, ⟨t, hfits t List.mem_cons_self, ha, rfl⟩,
        ⟨others, hrest, (Option.some.inj has).symm⟩, rfl⟩
  · intro h
    obtain ⟨_, a, _, ⟨t, ht, ha, rfl⟩, ⟨others, ⟨rest, ⟨hlength, hfits⟩, hothers, rfl⟩, rfl⟩,
        rfl⟩ := h
    refine ⟨t :: rest, ⟨by simpa using hlength, ?_⟩, ?_, ?_⟩
    · intro u hu
      rcases List.mem_cons.mp hu with rfl | hu
      · exact ht
      · exact hfits u hu
    · simp only [repeated] at hothers ⊢
      simp [ha, hothers]
    · simp [repeated]

theorem repeated_atLeast {F : Format τ α} {size : Nat} (h : F.language.AtLeast size)
    (count : Nat) : (F.repeated count).language.AtLeast (count * size) := by
  induction count with
  | zero => rw [Nat.zero_mul]; exact Language.atLeast_zero _
  | succ count ih =>
    intro word as hword
    have hword := (repeated_language_succ F count word as).mp hword
    obtain ⟨front, a, rest, hfront, ⟨others, hrest, _⟩, rfl⟩ := hword
    have hfirst := h front a hfront
    have hothers := ih rest others hrest
    rw [List.length_append, Nat.succ_mul]
    omega

/-- Where a term was written, only that term can be read, and it ends where it was to end. -/
def Unambiguous (F : Format τ α) : Prop :=
  ∀ t u (x y : Bytes), F.Fits t → F.Fits u → F.bytes t ++ x = F.bytes u ++ y → t = u ∧ x = y

theorem unambiguous_of_length {F : Format τ α} {n : Nat} (hlength : ∀ t, (F.bytes t).length = n)
    (hinjective : ∀ t u, F.Fits t → F.Fits u → F.bytes t = F.bytes u → t = u) :
    F.Unambiguous := by
  intro t u x y ht hu h
  obtain ⟨hbytes, hrest⟩ := List.append_inj h (by rw [hlength, hlength])
  exact ⟨hinjective t u ht hu hbytes, hrest⟩

theorem Unambiguous.repeated {F : Format τ α} (h : F.Unambiguous) (count : Nat) :
    (F.repeated count).Unambiguous := by
  induction count with
  | zero =>
    intro ts us x y ht hu heq
    obtain ⟨hts, _⟩ := ht
    obtain ⟨hus, _⟩ := hu
    rw [List.length_eq_zero_iff.mp hts, List.length_eq_zero_iff.mp hus] at heq ⊢
    exact ⟨rfl, heq⟩
  | succ count ih =>
    intro ts us x y ht hu heq
    obtain ⟨hts, htfits⟩ := ht
    obtain ⟨hus, hufits⟩ := hu
    obtain ⟨t, ts, rfl⟩ := List.exists_cons_of_length_eq_add_one hts
    obtain ⟨u, us, rfl⟩ := List.exists_cons_of_length_eq_add_one hus
    simp only [Format.repeated, List.flatMap_cons, List.append_assoc] at heq
    obtain ⟨hhead, htail⟩ := h t u _ _ (htfits t List.mem_cons_self)
      (hufits u List.mem_cons_self) heq
    obtain ⟨hrest, hxy⟩ := ih ts us x y
      ⟨Nat.succ.inj hts, fun v hv => htfits v (List.mem_cons_of_mem t hv)⟩
      ⟨Nat.succ.inj hus, fun v hv => hufits v (List.mem_cons_of_mem u hv)⟩ htail
    exact ⟨by rw [hhead, hrest], hxy⟩

end Format

namespace Scan

variable {α β τ : Type}

/-- From `offset` on, the scan succeeds with `a` and leaves the offset `next`. -/
def Accepts (s : Scan α) (data : Bytes) (offset : Int) (a : α) (next : Int) : Prop :=
  (s data offset).result = .ok a ∧ (s data offset).offset = next

theorem Accepts.bind {s : Scan α} {data : Bytes} {offset middle : Int} {a : α}
    (h : s.Accepts data offset a middle) (k : α → Scan β) :
    ((s >>= k) data offset).result = (k a data middle).result ∧
      ((s >>= k) data offset).offset = (k a data middle).offset := by
  rcases hs : s data offset with ⟨fault | a', middle', notes⟩
  · simp [Accepts, hs] at h
  · obtain ⟨rfl, rfl⟩ : a' = a ∧ middle' = middle := by simpa [Accepts, hs] using h
    rw [bind_of_ok hs]
    exact ⟨rfl, rfl⟩

theorem result_bind_of_error {s : Scan α} {data : Bytes} {offset : Int} {f : Fault}
    (h : (s data offset).result = .error f) (k : α → Scan β) :
    ((s >>= k) data offset).result = .error f := by
  rcases hs : s data offset with ⟨fault | a, middle, notes⟩
  · obtain rfl : fault = f := by simpa [hs] using h
    rw [bind_of_error hs]
  · simp [hs] at h

theorem accepts_bind_iff {s : Scan α} {k : α → Scan β} {data : Bytes} {offset last : Int} {b : β} :
    (s >>= k).Accepts data offset b last ↔
      ∃ a middle, s.Accepts data offset a middle ∧ (k a).Accepts data middle b last := by
  rcases h : s data offset with ⟨fault | a, middle, notes⟩
  · simp [Accepts, bind_of_error h, h]
  · simp only [Accepts, bind_of_ok h, h, Except.ok.injEq]
    constructor
    · intro hlast
      exact ⟨a, middle, ⟨rfl, rfl⟩, hlast⟩
    · intro hword
      obtain ⟨_, _, ⟨rfl, rfl⟩, hlast⟩ := hword
      exact hlast

/-- The scan accepts exactly the words of the language. -/
def Recognizes (s : Scan α) (L : Language α) : Prop :=
  ∀ (before after : Bytes) (a : α) (next : Int),
    s.Accepts (before ++ after) before.length a next ↔
      ∃ word rest, after = word ++ rest ∧ next = (before ++ word).length ∧ L word a

theorem Recognizes.congr {s : Scan α} {L M : Language α} (h : s.Recognizes L)
    (hLM : ∀ word a, L word a ↔ M word a) : s.Recognizes M := by
  have hML : L = M := funext fun word => funext fun a => propext (hLM word a)
  exact hML ▸ h

theorem Recognizes.accepts_bind_iff {s : Scan α} {L : Language α} (hs : s.Recognizes L)
    {k : α → Scan β} {before after : Bytes} {b : β} {last : Int} :
    (s >>= k).Accepts (before ++ after) before.length b last ↔
      ∃ word a rest, L word a ∧ after = word ++ rest ∧
        (k a).Accepts (before ++ word ++ rest) (before ++ word).length b last := by
  rw [Scan.accepts_bind_iff]
  constructor
  · intro h
    obtain ⟨a, middle, hfirst, hsecond⟩ := h
    obtain ⟨word, rest, rfl, rfl, hword⟩ := (hs before after a middle).mp hfirst
    rw [← List.append_assoc] at hsecond
    exact ⟨word, a, rest, hword, rfl, hsecond⟩
  · intro h
    obtain ⟨word, a, rest, hword, rfl, hsecond⟩ := h
    rw [List.append_assoc] at hsecond
    exact ⟨a, _, (hs before _ a _).mpr ⟨word, rest, rfl, rfl, hword⟩, hsecond⟩

theorem Recognizes.bind {s : Scan α} {k : α → Scan β} {L : Language α} {K : α → Language β}
    (hs : s.Recognizes L) (hk : ∀ a, (k a).Recognizes (K a)) :
    (s >>= k).Recognizes (L.bind K) := by
  intro before after b last
  rw [hs.accepts_bind_iff]
  constructor
  · intro h
    obtain ⟨front, a, others, hfront, rfl, hsecond⟩ := h
    obtain ⟨rest, beyond, rfl, rfl, hrest⟩ := (hk a (before ++ front) others b last).mp hsecond
    exact ⟨front ++ rest, beyond, by simp, by simp, front, a, rest, hfront, hrest, rfl⟩
  · intro h
    obtain ⟨_, beyond, rfl, rfl, front, a, rest, hfront, hrest, rfl⟩ := h
    refine ⟨front, a, rest ++ beyond, hfront, by simp, ?_⟩
    exact (hk a (before ++ front) _ b _).mpr ⟨rest, beyond, rfl, by simp, hrest⟩

theorem recognizes_pure (a : α) : (Pure.pure a : Scan α).Recognizes (Language.pure a) := by
  intro before after b next
  constructor
  · intro h
    obtain ⟨hvalue, hnext⟩ := h
    exact ⟨[], after, rfl, by rw [List.append_nil]; exact hnext.symm, rfl,
      (Except.ok.inj hvalue).symm⟩
  · intro h
    obtain ⟨_, rest, rfl, rfl, rfl, rfl⟩ := h
    exact ⟨rfl, by rw [List.append_nil]; rfl⟩

theorem Recognizes.map {s : Scan α} {L : Language α} (hs : s.Recognizes L) (f : α → β) :
    (do let a ← s; return f a : Scan β).Recognizes fun word b => ∃ a, L word a ∧ b = f a := by
  refine (hs.bind fun a => recognizes_pure (f a)).congr fun word b => ⟨?_, ?_⟩
  · intro h
    obtain ⟨front, a, _, hfront, ⟨rfl, rfl⟩, rfl⟩ := h
    rw [List.append_nil]
    exact ⟨a, hfront, rfl⟩
  · intro h
    obtain ⟨a, hword, rfl⟩ := h
    exact ⟨word, a, [], hword, ⟨rfl, rfl⟩, (List.append_nil word).symm⟩

theorem recognizes_fail (f : Fault) : (fail f : Scan α).Recognizes fun _ _ => False := by
  intro before after a next
  constructor
  · intro h
    obtain ⟨hvalue, _⟩ := h
    cases hvalue
  · intro h
    obtain ⟨_, _, _, _, hfalse⟩ := h
    exact hfalse.elim

def Stationary (s : Scan α) : Prop :=
  ∀ data offset, ∃ a notes, s data offset = ⟨.ok a, offset, notes⟩

theorem stationary_position : position.Stationary := fun _ offset => ⟨offset, [], rfl⟩

theorem stationary_buffer : buffer.Stationary := fun data _ => ⟨data, [], rfl⟩

theorem stationary_takeNote (n : Note) : (takeNote n).Stationary := fun _ _ => ⟨(), [n], rfl⟩

/-- What a stationary scan finds out may be used afterwards if it does not bear on the language. -/
theorem Stationary.recognizes_bind {s : Scan α} (hs : s.Stationary) {k : α → Scan β}
    {L : Language β} (hk : ∀ a, (k a).Recognizes L) : (s >>= k).Recognizes L := by
  intro before after b next
  obtain ⟨a, notes, ha⟩ := hs (before ++ after) before.length
  rw [← hk a before after b next]
  simp only [Accepts, bind_of_ok ha]

theorem Recognizes.times {s : Scan α} {F : Format τ α} (h : s.Recognizes F.language)
    (count : Nat) : (times count s).Recognizes (F.repeated count).language := by
  induction count with
  | zero =>
    refine (recognizes_pure []).congr fun word as => ⟨?_, ?_⟩
    · intro hword
      obtain ⟨rfl, rfl⟩ := hword
      exact ⟨[], ⟨rfl, by simp⟩, rfl, rfl⟩
    · intro hword
      obtain ⟨ts, ⟨hlength, _⟩, hvalue, rfl⟩ := hword
      rw [List.length_eq_zero_iff.mp hlength] at hvalue ⊢
      exact ⟨rfl, (Option.some.inj hvalue).symm⟩
  | succ count ih =>
    have hall := h.bind fun a => ih.map fun rest => a :: rest
    exact hall.congr fun word as => (Format.repeated_language_succ F count word as).symm

end Scan

end LuaBytecode
