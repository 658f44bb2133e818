import MeterRadio.Proofs.Code
import MeterRadio.Report.Json
import MeterRadio.Toml.Text
import Mathlib.Tactic.Common

/-!
# JSON text is read in one way only

The first character of a value tells its form. Strings, arrays and objects end with a character of
their own, and a number ends where its digits do; so the text of a value, followed by anything but a
digit, tells the value and where it ends (`toldApart`). A value whose strings are printable has a
printable text (`Printable.renderChars`).
-/

namespace MeterRadio.Report.Json

/-! ## Values and their parts -/

/-- A property of all values may be assumed of the elements of an array and of the fields of an
object. -/
theorem induction {P : Json → Prop} (number : ∀ n, P (.number n)) (string : ∀ s, P (.string s))
    (array : ∀ xs, (∀ x ∈ xs, P x) → P (.array xs))
    (object : ∀ fields, (∀ f ∈ fields, P f.2) → P (.object fields)) (x : Json) : P x := by
  refine @Json.rec P (fun xs => ∀ x ∈ xs, P x) (fun fields => ∀ f ∈ fields, P f.2) (fun f => P f.2)
    number string array object ?_ ?_ ?_ ?_ ?_ x
  · exact nofun
  · intro x xs hx hxs
    exact List.forall_mem_cons.mpr ⟨hx, hxs⟩
  · exact nofun
  · intro f fields hf hfields
    exact List.forall_mem_cons.mpr ⟨hf, hfields⟩
  · intro name x hx
    exact hx

/-- Texts one after another with commas between them, up to the closing character. -/
def commaList (close : Char) : List (List Char) → List Char
  | [] => [close]
  | t :: ts => t ++ (if ts.isEmpty then [] else [',']) ++ commaList close ts

theorem renderElements_eq (xs : List Json) :
    renderElements xs = commaList ']' (xs.map renderChars) := by
  induction xs with
  | nil => rfl
  | cons x xs ih => rw [renderElements, ih, List.map_cons, commaList, List.isEmpty_map]

theorem renderFields_eq (fields : List (String × Json)) :
    renderFields fields = commaList '}' (fields.map renderField) := by
  induction fields with
  | nil => rfl
  | cons f fields ih => rw [renderFields, ih, List.map_cons, commaList, List.isEmpty_map]

/-! ## Strings -/

/-- Reads a character inside a string. -/
def unescape : List Char → Option (Char × List Char)
  | '\\' :: 'u' :: a :: b :: c :: d :: r => (Toml.charOfHex? [a, b, c, d]).map fun x => (x, r)
  | '\\' :: c :: r => (Toml.escapedChar? c).map fun x => (x, r)
  | c :: r => some (c, r)
  | [] => none

theorem unescape_escape (c : Char) (r : List Char) : unescape (escape c ++ r) = some (c, r) := by
  have hcontrol : ∀ n < 32, Toml.charOfHex? ['0', '0', hexDigit (n / 16), hexDigit (n % 16)] =
      some (Char.ofNat n) := by decide
  unfold escape
  split_ifs with hquote hbackslash hfeed hreturn htab hbackspace hformfeed hlow
  · subst hquote
    rfl
  · subst hbackslash
    rfl
  · subst hfeed
    rfl
  · subst hreturn
    rfl
  · subst htab
    rfl
  · subst hbackspace
    rfl
  · subst hformfeed
    rfl
  · have hc := hcontrol c.toNat hlow
    rw [Char.ofNat_toNat] at hc
    show (Toml.charOfHex? _).map _ = _
    rw [hc]
    rfl
  · rw [List.singleton_append, unescape]
    · rintro _ _ _ _ _ rfl -
      exact hbackslash rfl
    · rintro _ _ rfl -
      exact hbackslash rfl

theorem exists_escape_eq_cons (c : Char) : ∃ b bs, escape c = b :: bs ∧ b ≠ '"' := by
  unfold escape
  split_ifs with hquote
  all_goals exact ⟨_, _, rfl, by first | assumption | decide⟩

theorem prefixFree_renderString : PrefixFree renderString := by
  have hescape : PrefixFree escape := prefixFree_of_reader unescape_escape
  intro s t r r' h
  have hchars := hescape.flatMap_stop exists_escape_eq_cons s.toList t.toList r r' (List.cons.inj h).2
  exact ⟨String.toList_inj.mp hchars.1, hchars.2⟩

/-! ## Numbers -/

/-- The text does not go on with a digit. -/
def Ends (r : List Char) : Prop :=
  ∀ c ∈ r.head?, c.isDigit = false

theorem ends_cons {c : Char} {r : List Char} (h : c.isDigit = false) : Ends (c :: r) := by
  intro d hd
  cases hd
  exact h

theorem isDigit_of_mem_renderNumber {n : Nat} {c : Char} (h : c ∈ renderNumber n) : c.isDigit = true := by
  rw [renderNumber, Nat.toList_repr] at h
  exact Nat.isDigit_of_mem_toDigits (by decide) (by decide) h

theorem renderNumber_inj {m n : Nat} {r r' : List Char} (hr : Ends r) (hr' : Ends r')
    (h : renderNumber m ++ r = renderNumber n ++ r') : m = n ∧ r = r' := by
  obtain ⟨hdigits, hrest⟩ := append_inj_of_span (fun _ => isDigit_of_mem_renderNumber)
    (fun _ => isDigit_of_mem_renderNumber) hr hr' h
  refine ⟨?_, hrest⟩
  rw [renderNumber, renderNumber, Nat.toList_repr, Nat.toList_repr] at hdigits
  rw [← Nat.ofDigitChars_ten_toDigits (n := m), hdigits, Nat.ofDigitChars_ten_toDigits]

/-! ## Forms -/

inductive Form
  | number | string | array | object

def form : Json → Form
  | .number _ => .number
  | .string _ => .string
  | .array _ => .array
  | .object _ => .object

/-- The form of the value that starts with a character. -/
def Form.ofChar? (c : Char) : Option Form :=
  if c.isDigit then some .number
  else if c = '"' then some .string
  else if c = '[' then some .array
  else if c = '{' then some .object
  else none

theorem exists_renderChars_eq_cons (x : Json) :
    ∃ c cs, x.renderChars = c :: cs ∧ Form.ofChar? c = some x.form := by
  cases x with
  | number n =>
    have hne : Nat.toDigits 10 n ≠ [] := Nat.toDigits_ne_nil
    obtain ⟨c, cs, hdigits⟩ := List.exists_cons_of_ne_nil hne
    have htext : renderNumber n = c :: cs := by rw [renderNumber, Nat.toList_repr, hdigits]
    have hc : c.isDigit = true := isDigit_of_mem_renderNumber (htext ▸ List.mem_cons_self)
    exact ⟨c, cs, htext, if_pos hc⟩
  | string s => exact ⟨_, _, rfl, rfl⟩
  | array xs => exact ⟨_, _, rfl, rfl⟩
  | object fields => exact ⟨_, _, rfl, rfl⟩

theorem form_eq {x y : Json} {r r' : List Char} (h : x.renderChars ++ r = y.renderChars ++ r') :
    x.form = y.form := by
  obtain ⟨c, cs, hx, hc⟩ := exists_renderChars_eq_cons x
  obtain ⟨d, ds, hy, hd⟩ := exists_renderChars_eq_cons y
  rw [hx, hy] at h
  rw [(List.cons.inj h).1, hd] at hc
  exact (Option.some.inj hc).symm

/-! ## Values -/

/-- The text of `x` tells that it is `x` and where it ends. -/
def ToldApart {α : Type} (text : α → List Char) (x : α) : Prop :=
  ∀ y r r', Ends r → Ends r' → text x ++ r = text y ++ r' → x = y ∧ r = r'

theorem commaList_inj {α : Type} {text : α → List Char} {close : Char} (hclose : close.isDigit = false)
    (hcomma : close ≠ ',') (hhead : ∀ x, ∃ c cs, text x = c :: cs ∧ c ≠ close) {xs ys : List α}
    {r r' : List Char} (hxs : ∀ x ∈ xs, ToldApart text x)
    (h : commaList close (xs.map text) ++ r = commaList close (ys.map text) ++ r') :
    xs = ys ∧ r = r' := by
  -- what follows an element is a comma or the closing character
  have hends (zs : List α) (s : List Char) :
      Ends ((if (zs.map text).isEmpty then [] else [',']) ++ (commaList close (zs.map text) ++ s)) := by
    cases zs with
    | nil => exact ends_cons hclose
    | cons z zs => exact ends_cons (by decide)
  induction xs generalizing ys with
  | nil =>
    cases ys with
    | nil => exact ⟨rfl, (List.cons.inj h).2⟩
    | cons y ys =>
      obtain ⟨c, cs, htext, hne⟩ := hhead y
      rw [List.map_cons, commaList, htext] at h
      exact absurd (List.cons.inj h).1.symm hne
  | cons x xs ih =>
    cases ys with
    | nil =>
      obtain ⟨c, cs, htext, hne⟩ := hhead x
      rw [List.map_cons, commaList, htext] at h
      exact absurd (List.cons.inj h).1 hne
    | cons y ys =>
      rw [List.map_cons, List.map_cons, commaList, commaList, List.append_assoc, List.append_assoc,
        List.append_assoc, List.append_assoc] at h
      obtain ⟨rfl, hrest⟩ := hxs x List.mem_cons_self y _ _ (hends xs r) (hends ys r') h
      have hrest' : xs = ys ∧ r = r' := by
        cases xs with
        | nil =>
          cases ys with
          | nil => exact ⟨rfl, (List.cons.inj hrest).2⟩
          | cons y' ys => exact absurd (List.cons.inj hrest).1 hcomma
        | cons x' xs =>
          cases ys with
          | nil => exact absurd (List.cons.inj hrest).1.symm hcomma
          | cons y' ys => exact ih (fun z hz => hxs z (List.mem_cons_of_mem _ hz)) (List.cons.inj hrest).2
      obtain ⟨rfl, rfl⟩ := hrest'
      exact ⟨rfl, rfl⟩

theorem toldApart_field {f : String × Json} (h : ToldApart renderChars f.2) : ToldApart renderField f := by
  obtain ⟨name, x⟩ := f
  rintro ⟨name', y⟩ r r' hr hr' heq
  rw [renderField, renderField, List.append_assoc, List.append_assoc] at heq
  obtain ⟨rfl, hrest⟩ := prefixFree_renderString name name' _ _ heq
  obtain ⟨rfl, rfl⟩ := h y r r' hr hr' (List.cons.inj hrest).2
  exact ⟨rfl, rfl⟩

/-- The text of a value tells the value. -/
theorem toldApart (x : Json) : ToldApart renderChars x := by
  induction x using induction with
  | number n =>
    intro y r r' hr hr' h
    cases y with
    | number m =>
      obtain ⟨rfl, rfl⟩ := renderNumber_inj hr hr' h
      exact ⟨rfl, rfl⟩
    | string | array | object => nomatch form_eq h
  | string s =>
    intro y r r' hr hr' h
    cases y with
    | string t =>
      obtain ⟨rfl, rfl⟩ := prefixFree_renderString s t r r' h
      exact ⟨rfl, rfl⟩
    | number | array | object => nomatch form_eq h
  | array xs ih =>
    intro y r r' hr hr' h
    cases y with
    | array ys =>
      have helements := (List.cons.inj h).2
      rw [renderElements_eq, renderElements_eq] at helements
      have hhead (x : Json) : ∃ c cs, x.renderChars = c :: cs ∧ c ≠ ']' := by
        obtain ⟨c, cs, htext, hform⟩ := exists_renderChars_eq_cons x
        refine ⟨c, cs, htext, ?_⟩
        rintro rfl
        nomatch hform
      obtain ⟨rfl, rfl⟩ := commaList_inj (by decide) (by decide) hhead ih helements
      exact ⟨rfl, rfl⟩
    | number | string | object => nomatch form_eq h
  | object fields ih =>
    intro y r r' hr hr' h
    cases y with
    | object fields' =>
      have hfields := (List.cons.inj h).2
      rw [renderFields_eq, renderFields_eq] at hfields
      have hhead (f : String × Json) : ∃ c cs, renderField f = c :: cs ∧ c ≠ '}' := by
        obtain ⟨name, x⟩ := f
        exact ⟨'"', _, rfl, by decide⟩
      obtain ⟨rfl, rfl⟩ := commaList_inj (by decide) (by decide) hhead
        (fun f hf => toldApart_field (ih f hf)) hfields
      exact ⟨rfl, rfl⟩
    | number | string | array => nomatch form_eq h

theorem render_injective : Function.Injective render := by
  intro x y h
  have hchars : x.renderChars ++ [] = y.renderChars ++ [] := by
    rw [List.append_nil, List.append_nil]
    exact String.ofList_injective h
  exact (toldApart x y [] [] nofun nofun hchars).1

/-! ## Characters -/

/-- All strings of a value and all names in it are printable. -/
inductive Printable : Json → Prop
  | number (n : Nat) : Printable (.number n)
  | string {s : String} (h : s.toList.all isPrintable = true) : Printable (.string s)
  | array {xs : List Json} (h : ∀ x ∈ xs, Printable x) : Printable (.array xs)
  | object {fields : List (String × Json)} (hnames : ∀ f ∈ fields, f.1.toList.all isPrintable = true)
      (h : ∀ f ∈ fields, Printable f.2) : Printable (.object fields)

@[simp] theorem printable_number (n : Nat) : Printable (.number n) :=
  .number n

@[simp] theorem printable_string_iff {s : String} :
    Printable (.string s) ↔ s.toList.all isPrintable = true := by
  constructor
  · rintro ⟨⟩
    assumption
  · exact .string

@[simp] theorem printable_object_nil : Printable (.object []) :=
  .object nofun nofun

@[simp] theorem printable_object_cons {name : String} {x : Json} {fields : List (String × Json)} :
    Printable (.object ((name, x) :: fields)) ↔
      name.toList.all isPrintable = true ∧ Printable x ∧ Printable (.object fields) := by
  constructor
  · rintro ⟨⟩
    rename_i hnames h
    rw [List.forall_mem_cons] at hnames h
    exact ⟨hnames.1, h.1, .object hnames.2 h.2⟩
  · rintro ⟨hname, hx, ⟨⟩⟩
    rename_i hnames h
    exact .object (List.forall_mem_cons.mpr ⟨hname, hnames⟩) (List.forall_mem_cons.mpr ⟨hx, h⟩)

theorem isPrintable_of_isDigit {c : Char} (h : c.isDigit = true) : isPrintable c = true := by
  simp only [Char.isDigit, Bool.and_eq_true, decide_eq_true_eq, UInt32.le_iff_toNat_le] at h
  obtain ⟨hlow, hhigh⟩ := h
  change 48 ≤ c.toNat at hlow
  change c.toNat ≤ 57 at hhigh
  simp only [isPrintable, Bool.and_eq_true, decide_eq_true_eq]
  omega

theorem isPrintable_of_mem_renderString {s : String} (h : s.toList.all isPrintable = true) {d : Char}
    (hd : d ∈ renderString s) : isPrintable d = true := by
  have hescape (c : Char) (hc : isPrintable c = true) : ∀ d ∈ escape c, isPrintable d = true := by
    have hlow : ¬c.toNat < 32 := by
      simp only [isPrintable, Bool.and_eq_true, decide_eq_true_eq] at hc
      omega
    have hletter (x : Char) (hx : isPrintable x = true) : ∀ d ∈ ['\\', x], isPrintable d = true := by
      simpa using ⟨by decide, hx⟩
    unfold escape
    split_ifs
    all_goals first | exact hletter _ (by decide) | simpa using hc
  simp only [renderString, List.mem_cons, List.cons_append, List.mem_append, List.mem_flatMap,
    List.not_mem_nil, or_false] at hd
  rcases hd with rfl | ⟨c, hc, hd⟩ | rfl
  · decide
  · exact hescape c (List.all_eq_true.mp h c hc) d hd
  · decide

theorem isPrintable_of_mem_commaList {close : Char} (hclose : isPrintable close = true)
    {texts : List (List Char)} (h : ∀ t ∈ texts, ∀ c ∈ t, isPrintable c = true) :
    ∀ c ∈ commaList close texts, isPrintable c = true := by
  induction texts with
  | nil =>
    intro c hc
    rw [List.mem_singleton.mp hc]
    exact hclose
  | cons t ts ih =>
    intro c hc
    rw [commaList, List.mem_append, List.mem_append] at hc
    rcases hc with (hc | hc) | hc
    · exact h t List.mem_cons_self c hc
    · split_ifs at hc
      · cases hc
      · rw [List.mem_singleton.mp hc]
        decide
    · exact ih (fun t ht => h t (List.mem_cons_of_mem _ ht)) c hc

theorem Printable.renderChars {x : Json} (h : Printable x) : ∀ c ∈ x.renderChars, isPrintable c = true := by
  induction h with
  | number n =>
    intro c hc
    exact isPrintable_of_isDigit (isDigit_of_mem_renderNumber hc)
  | string h =>
    intro c hc
    exact isPrintable_of_mem_renderString h hc
  | array h ih =>
    intro c hc
    rw [Json.renderChars, renderElements_eq] at hc
    rcases List.mem_cons.mp hc with rfl | hc
    · decide
    · refine isPrintable_of_mem_commaList (by decide) ?_ c hc
      intro t ht
      obtain ⟨x, hx, rfl⟩ := List.mem_map.mp ht
      exact ih x hx
  | object hnames h ih =>
    intro c hc
    rw [Json.renderChars, renderFields_eq] at hc
    rcases List.mem_cons.mp hc with rfl | hc
    · decide
    · refine isPrintable_of_mem_commaList (by decide) ?_ c hc
      intro t ht d hd
      obtain ⟨⟨name, x⟩, hf, rfl⟩ := List.mem_map.mp ht
      rw [renderField, List.mem_append, List.mem_cons] at hd
      rcases hd with hd | rfl | hd
      · exact isPrintable_of_mem_renderString (hnames _ hf) hd
      · decide
      · exact ih _ hf d hd

end MeterRadio.Report.Json
