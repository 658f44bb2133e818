import MeterRadio.Proofs.Report.Json
import MeterRadio.Report.Line
import Mathlib.Tactic.Common

/-!
# An output line tells what it reports

The values of different records are different, and so are the hexadecimal texts of different bytes, so
an output line, being JSON text, tells the record, the kind and the raw message that it was made of. All
its characters are printable, so lines can be told apart in a stream of them, and the stream tells all
its reports (`line_faithful`).
-/

namespace MeterRadio

open Report (Json isPrintable)
open Report.Json (ofByte ofWord16 ofWord32 Printable printable_object_nil printable_object_cons
  printable_string_iff)

/-! ## Hexadecimal text -/

theorem hexDigit_inj : ∀ m < 16, ∀ n < 16, hexDigit m = hexDigit n → m = n := by
  decide

theorem isPrintable_hexDigit : ∀ n < 16, isPrintable (hexDigit n) = true := by
  decide

theorem prefixFree_hexDigits :
    PrefixFree fun b : UInt8 => [hexDigit (b.toNat / 16), hexDigit (b.toNat % 16)] := by
  intro b c r r' h
  have hb := b.toNat_lt
  have hc := c.toNat_lt
  obtain ⟨hhigh, hrest⟩ := List.cons.inj h
  obtain ⟨hlow, rfl⟩ := List.cons.inj hrest
  have hhigh' := hexDigit_inj _ (by omega) _ (by omega) hhigh
  have hlow' := hexDigit_inj _ (by omega) _ (by omega) hlow
  refine ⟨UInt8.toNat_inj.mp ?_, rfl⟩
  omega

theorem hex_injective : Function.Injective hex := by
  intro d e h
  have hchars := String.ofList_injective h
  exact prefixFree_hexDigits.flatMap_injective (fun _ => List.cons_ne_nil _ _) hchars

theorem isPrintable_of_mem_hex {d : Bytes} {c : Char} (h : c ∈ (hex d).toList) :
    isPrintable c = true := by
  rw [hex, String.toList_ofList, hexChars, List.mem_flatMap] at h
  obtain ⟨b, -, hc⟩ := h
  have hb := b.toNat_lt
  simp only [List.mem_cons, List.not_mem_nil, or_false] at hc
  rcases hc with rfl | rfl
  · exact isPrintable_hexDigit _ (by omega)
  · exact isPrintable_hexDigit _ (by omega)

/-! ## Values of records -/

theorem ofByte_injective : Function.Injective ofByte := by
  intro a b h
  exact UInt8.toNat_inj.mp (Json.number.inj h)

theorem ofWord16_injective : Function.Injective ofWord16 := by
  intro a b h
  exact UInt16.toNat_inj.mp (Json.number.inj h)

theorem ofWord32_injective : Function.Injective ofWord32 := by
  intro a b h
  exact UInt32.toNat_inj.mp (Json.number.inj h)

/-- Arrays of different numbers are different. -/
theorem toList_map_inj {α : Type} {n : Nat} {f : α → Json} (hf : Function.Injective f)
    {v w : Vector α n} : v.toList.map f = w.toList.map f ↔ v = w := by
  rw [List.map_inj_right hf, Vector.toList_inj]

theorem Scm.jsonFields_injective : Function.Injective Scm.jsonFields := by
  intro m m' h
  cases m
  cases m'
  simpa [Scm.jsonFields, ofByte_injective.eq_iff, ofWord16_injective.eq_iff,
    ofWord32_injective.eq_iff] using h

theorem ScmPlus.jsonFields_injective : Function.Injective ScmPlus.jsonFields := by
  intro m m' h
  cases m
  cases m'
  simpa [ScmPlus.jsonFields, ofByte_injective.eq_iff, ofWord16_injective.eq_iff,
    ofWord32_injective.eq_iff] using h

theorem IdmPayload.jsonFields_injective : Function.Injective IdmPayload.jsonFields := by
  intro p p' h
  cases p with
  | standard data =>
    cases p' with
    | standard data' =>
      cases data
      cases data'
      simpa [IdmPayload.jsonFields, ofByte_injective.eq_iff, ofWord16_injective.eq_iff,
        ofWord32_injective.eq_iff, toList_map_inj ofByte_injective, toList_map_inj ofWord16_injective]
        using h
    | x18 data' => simp [IdmPayload.jsonFields] at h
  | x18 data =>
    cases p' with
    | standard data' => simp [IdmPayload.jsonFields] at h
    | x18 data' =>
      cases data
      cases data'
      simpa [IdmPayload.jsonFields, ofByte_injective.eq_iff, ofWord16_injective.eq_iff,
        ofWord32_injective.eq_iff, toList_map_inj ofByte_injective, toList_map_inj ofWord16_injective]
        using h

theorem Idm.jsonFields_injective : Function.Injective Idm.jsonFields := by
  intro m m' h
  cases m
  cases m'
  simpa [Idm.jsonFields, ofByte_injective.eq_iff, ofWord16_injective.eq_iff, ofWord32_injective.eq_iff,
    IdmPayload.jsonFields_injective.eq_iff] using h

theorem Record.toJson_injective : Function.Injective Record.toJson := by
  intro m m' h
  cases m with
  | scm m =>
    cases m' with
    | scm m' => rw [Scm.jsonFields_injective (List.cons.inj (Json.object.inj h)).2]
    | scmPlus | idm => simp [Record.toJson] at h
  | scmPlus m =>
    cases m' with
    | scmPlus m' => rw [ScmPlus.jsonFields_injective (List.cons.inj (Json.object.inj h)).2]
    | scm | idm => simp [Record.toJson] at h
  | idm m =>
    cases m' with
    | idm m' => rw [Idm.jsonFields_injective (List.cons.inj (Json.object.inj h)).2]
    | scm | scmPlus => simp [Record.toJson] at h

theorem Kind.name_injective : Function.Injective Kind.name := by
  intro k k' h
  cases k <;> cases k' <;> first | rfl | exact absurd h (by decide)

/-! ## Characters of lines -/

@[simp] theorem printable_bytes {n : Nat} (v : Vector UInt8 n) :
    Printable (.array (v.toList.map ofByte)) := by
  refine .array fun x hx => ?_
  obtain ⟨b, -, rfl⟩ := List.mem_map.mp hx
  exact .number b.toNat

@[simp] theorem printable_words {n : Nat} (v : Vector UInt16 n) :
    Printable (.array (v.toList.map ofWord16)) := by
  refine .array fun x hx => ?_
  obtain ⟨w, -, rfl⟩ := List.mem_map.mp hx
  exact .number w.toNat

theorem Record.printable_toJson (record : Record) : Printable record.toJson := by
  have hpayload (p : IdmPayload) : Printable (.object p.jsonFields) := by
    cases p with
    | standard => simp [IdmPayload.jsonFields, ofWord16, ofWord32, ofByte, isPrintable]
    | x18 => simp [IdmPayload.jsonFields, ofWord32, isPrintable]
  cases record with
  | scm => simp [Record.toJson, Scm.jsonFields, ofWord16, ofWord32, ofByte, isPrintable]
  | scmPlus => simp [Record.toJson, ScmPlus.jsonFields, ofWord16, ofWord32, ofByte, isPrintable]
  | idm m => simp [Record.toJson, Idm.jsonFields, ofWord16, ofWord32, ofByte, isPrintable, hpayload]

theorem Record.printable_lineJson {receivedAt : String} (h : receivedAt.toList.all isPrintable = true)
    (record : Record) (kind : Kind) (raw : Bytes) : Printable (record.lineJson receivedAt kind raw) := by
  have hkind : kind.name.toList.all isPrintable = true := by
    cases kind <;> decide
  have hraw : (hex raw).toList.all isPrintable = true :=
    List.all_eq_true.mpr fun _ hc => isPrintable_of_mem_hex hc
  rw [Record.lineJson]
  simp only [printable_object_cons, printable_object_nil, printable_string_iff]
  exact ⟨by decide, h, by decide, hkind, by decide, hraw, by decide, record.printable_toJson, trivial⟩

theorem Record.all_isPrintable_line {receivedAt : String} (h : receivedAt.toList.all isPrintable = true)
    (record : Record) (kind : Kind) (raw : Bytes) :
    (record.line receivedAt kind raw).toList.all isPrintable = true := by
  rw [Record.line, Json.render, String.toList_ofList, List.all_eq_true]
  exact (printable_lineJson h record kind raw).renderChars

/-! ## Lines -/

theorem Record.line_eq_iff {receivedAt : String} {record record' : Record} {kind kind' : Kind}
    {raw raw' : Bytes} :
    record.line receivedAt kind raw = record'.line receivedAt kind' raw' ↔
      record = record' ∧ kind = kind' ∧ raw = raw' := by
  constructor
  · intro h
    have hjson := Json.render_injective h
    simp only [Record.lineJson, Json.object.injEq, List.cons.injEq, Prod.mk.injEq, Json.string.injEq,
      true_and, and_true, hex_injective.eq_iff, Kind.name_injective.eq_iff,
      Record.toJson_injective.eq_iff] at hjson
    obtain ⟨hkind, hraw, hrecord⟩ := hjson
    exact ⟨hrecord, hkind, hraw⟩
  · rintro ⟨rfl, rfl, rfl⟩
    rfl

theorem Report.stream_injective {receivedAt : String} (h : receivedAt.toList.all isPrintable = true) :
    Function.Injective (Report.stream receivedAt) := by
  have hlines : Function.Injective fun p : Record × Kind × Bytes =>
      (p.1.line receivedAt p.2.1 p.2.2).toList := by
    rintro ⟨m, k, r⟩ ⟨m', k', r'⟩ hline
    obtain ⟨rfl, rfl, rfl⟩ := Record.line_eq_iff.mp (String.toList_inj.mp hline)
    rfl
  have hbreak (p : Record × Kind × Bytes) : '\n' ∉ (p.1.line receivedAt p.2.1 p.2.2).toList := by
    intro hmem
    have hprintable := List.all_eq_true.mp (p.1.all_isPrintable_line h p.2.1 p.2.2) _ hmem
    exact absurd hprintable (by decide)
  have hcode := prefixFree_append_stop hlines hbreak
  intro ps qs heq
  have htoList (ps : List (Record × Kind × Bytes)) : (Report.stream receivedAt ps).toList =
      ps.flatMap fun p => (p.1.line receivedAt p.2.1 p.2.2).toList ++ ['\n'] := by
    rw [Report.stream, String.toList_join, List.flatMap_map]
    simp only [String.toList_append]
    rfl
  have hchars := congrArg String.toList heq
  rw [htoList, htoList] at hchars
  refine hcode.flatMap_injective (fun p => ?_) hchars
  exact List.append_ne_nil_of_right_ne_nil _ (List.cons_ne_nil _ _)

/-- **Output lines are faithful.** Whatever time is left out of them, two lines are the same only if they
report the same record, the same kind and the same raw message. A line has printable characters only, so
no line break of any sort is in it, and a stream of lines tells how many reports it is made of and which
ones. -/
theorem Record.line_faithful :
    (∀ (m m' : Record) (k k' : Kind) (r r' : Bytes),
      m.line "" k r = m'.line "" k' r' ↔ m = m' ∧ k = k' ∧ r = r') ∧
    (∀ (m : Record) (k : Kind) (r : Bytes), (m.line "" k r).toList.all isPrintable = true) ∧
    ∀ ps qs : List (Record × Kind × Bytes), Report.stream "" ps = Report.stream "" qs ↔ ps = qs := by
  refine ⟨fun _ _ _ _ _ _ => Record.line_eq_iff, ?_, ?_⟩
  · exact fun m k r => m.all_isPrintable_line rfl k r
  · exact fun ps qs => (Report.stream_injective rfl).eq_iff

end MeterRadio
