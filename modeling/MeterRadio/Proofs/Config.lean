import MeterRadio.Config.Document
import MeterRadio.Proofs.Ring.Layout
import Mathlib.Data.Int.CharZero
import Mathlib.Data.List.Nodup

/-!
# What is loaded is what was written down

Taking over one entry never spoils another one, so the order of the entries makes no difference, and
what is not known makes none either (`Fills.readEntries`). With this for each section and for the whole
document, a document that writes a valid configuration down is loaded as this configuration, and nothing
that is loaded is out of bounds (`load_document`).
-/

namespace MeterRadio

open Toml (Value)

variable {c : Config}

/-! ## Bounds -/

theorem Level.isNone_ofName?_iff (s : String) :
    (Level.ofName? s).isNone = true ↔ ¬∃ l : Level, s = l.name := by
  unfold Level.ofName?
  rw [Option.isNone_iff_eq_none, List.find?_eq_none]
  constructor
  · rintro h ⟨l, rfl⟩
    exact h l (by cases l <;> decide) (beq_self_eq_true _)
  · intro h l _ hl
    exact h ⟨l, (eq_of_beq hl).symm⟩

theorem Config.validate_eq_ok_iff : c.validate = .ok () ↔ c.InBounds := by
  unfold Config.validate
  constructor
  · intro h
    split_ifs at h with hring hdrain hstats hpath hrate hformat hlevel
    rw [Level.isNone_ofName?_iff, not_not] at hlevel
    rw [← UInt32.toNat_inj, UInt32.lt_iff_toNat_lt] at hrate
    have hrate' : ¬(c.capture.bitRate.toNat = 0 ∨ 1000000 < c.capture.bitRate.toNat) := hrate
    constructor
    · omega
    · omega
    · omega
    · intro hempty
      exact hpath (by rw [hempty]; rfl)
    · omega
    · exact not_not.mp hformat
    · exact hlevel
  · rintro ⟨hring, hdrain, hstats, hpath, hrate, hformat, hlevel⟩
    have hrate' : ¬(c.capture.bitRate = 0 ∨ 1000000 < c.capture.bitRate) := by
      rw [← UInt32.toNat_inj, UInt32.lt_iff_toNat_lt]
      show ¬(c.capture.bitRate.toNat = 0 ∨ 1000000 < c.capture.bitRate.toNat)
      omega
    rw [if_neg (by omega), if_neg (by omega), if_neg (by omega), if_neg (by simpa using hpath),
      if_neg hrate', if_neg (not_not.mpr hformat),
      if_neg (fun hnone => (Level.isNone_ofName?_iff _).mp hnone hlevel)]

theorem Config.InBounds.isInitialized (h : c.InBounds) :
    (FrameRing.ofCapacity c.receiver.ringCapacity).isInitialized = true := by
  have husable := usable_of_validate (validate_eq_ok_iff.mpr h)
  have hpos := h.ringCapacity.1
  rw [FrameRing.isInitialized, FrameRing.capacity_ofCapacity husable, decide_eq_true_eq]
  omega

/-! ## Sections of a document -/

/-- Where no name is there twice, a section is there if its table is. -/
theorem HasSection.of_mem {tree full defaults table : List (String × Value)} {name : String}
    (hnodup : (tree.map Prod.fst).Nodup) (hmem : (name, .table table) ∈ tree)
    (hwrites : Writes full defaults table) : HasSection tree name full defaults where
  present := List.mem_map.mpr ⟨_, hmem, rfl⟩
  writes := by
    intro v hv
    exact ⟨table, congrArg Prod.snd (List.inj_on_of_nodup_map hnodup hv hmem rfl), hwrites⟩

/-! ## Reading entries -/

namespace Schema

variable {σ : Type} {entries : List (Entry σ)}
variable {good : String → Value → Prop} {right : σ → String → Prop}

/-- Good values are taken over, and what was right before stays so: `right s key` says that `s` has from
the entry `key` what it should have. -/
def Fills (entries : List (Entry σ)) (good : String → Value → Prop) (right : σ → String → Prop) :
    Prop :=
  ∀ e ∈ entries, ∀ (s : σ) (v : Value), good e.key v →
    ∃ s', e.set s v = .ok s' ∧ right s' e.key ∧ ∀ k, right s k → right s' k

/-- If the values of all known entries are good, everything is right in the end that was right in the
beginning or is there. -/
theorem Fills.readEntries (h : Fills entries good right) {table : List (String × Value)} {s : σ}
    (hgood : ∀ p ∈ table, ∀ e ∈ entries, e.key = p.1 → good p.1 p.2)
    (hall : ∀ e ∈ entries, right s e.key ∨ e.key ∈ table.map Prod.fst) :
    ∃ s', Schema.readEntries entries s table = .ok s' ∧ ∀ e ∈ entries, right s' e.key := by
  induction table generalizing s with
  | nil =>
    refine ⟨s, rfl, fun e he => ?_⟩
    rcases hall e he with hright | hmem
    · exact hright
    · cases hmem
  | cons p rest ih =>
    obtain ⟨key, v⟩ := p
    have hgood' : ∀ p ∈ rest, ∀ e ∈ entries, e.key = p.1 → good p.1 p.2 :=
      fun p hp => hgood p (List.mem_cons_of_mem _ hp)
    rw [Schema.readEntries]
    cases hfind : entries.find? fun e => e.key == key with
    | none =>
      refine ih hgood' fun e he => ?_
      rcases hall e he with hright | hmem
      · exact Or.inl hright
      · rcases List.mem_cons.mp hmem with hkey | hmem
        · exact absurd (beq_iff_eq.mpr hkey) (List.find?_eq_none.mp hfind e he)
        · exact Or.inr hmem
    | some e =>
      have he := List.mem_of_find?_eq_some hfind
      obtain rfl : e.key = key := eq_of_beq (List.find?_some hfind :)
      obtain ⟨s', hset, hright, hkeeps⟩ := h e he s v (hgood (e.key, v) List.mem_cons_self e he rfl)
      dsimp only
      rw [hset]
      refine ih hgood' fun e' he' => ?_
      rcases hall e' he' with hright' | hmem
      · exact Or.inl (hkeeps _ hright')
      · rcases List.mem_cons.mp hmem with hkey | hmem
        · exact Or.inl (hkey ▸ hright)
        · exact Or.inr hmem

/-! ## Sections -/

/-- The entries of a section take over what is written down of `t`, and this is all of `t`. -/
structure Takes (entries : List (Entry σ)) (written : σ → List (String × Value)) (t : σ) : Prop where
  keys : ∀ s, (written s).map Prod.fst = entries.map Entry.key
  nodup : (entries.map Entry.key).Nodup
  /-- Taking over an entry replaces its value and no other. -/
  set : ∀ e ∈ entries, ∀ (s : σ) (v : Value), (e.key, v) ∈ written t →
    ∃ s', e.set s v = .ok s' ∧
      written s' = (written s).map fun p => if p.1 = e.key then (p.1, v) else p
  ext : ∀ s, (∀ p ∈ written t, p ∈ written s) → s = t

variable {written : σ → List (String × Value)} {t : σ}

theorem Takes.exists_value (h : Takes entries written t) {e : Entry σ} (he : e ∈ entries) (s : σ) :
    ∃ v, (e.key, v) ∈ written s := by
  have hmem : e.key ∈ (written s).map Prod.fst := h.keys s ▸ List.mem_map_of_mem he
  obtain ⟨⟨_, v⟩, hp, rfl⟩ := List.mem_map.mp hmem
  exact ⟨v, hp⟩

theorem Takes.exists_entry (h : Takes entries written t) {p : String × Value} (hp : p ∈ written t) :
    ∃ e ∈ entries, e.key = p.1 :=
  List.mem_map.mp (h.keys t ▸ List.mem_map_of_mem hp)

theorem Takes.eq_of_mem (h : Takes entries written t) {key : String} {v w : Value}
    (hv : (key, v) ∈ written t) (hw : (key, w) ∈ written t) : v = w := by
  have hnodup : ((written t).map Prod.fst).Nodup := h.keys t ▸ h.nodup
  exact congrArg Prod.snd (List.inj_on_of_nodup_map hnodup hv hw rfl)

theorem Takes.fills (h : Takes entries written t) :
    Fills entries (fun key v => (key, v) ∈ written t)
      fun s key => ∀ v, (key, v) ∈ written t → (key, v) ∈ written s := by
  intro e he s v hv
  obtain ⟨s', hset, hwritten⟩ := h.set e he s v hv
  refine ⟨s', hset, ?_, ?_⟩
  · intro w hw
    obtain rfl := h.eq_of_mem hv hw
    obtain ⟨u, hu⟩ := h.exists_value he s
    rw [hwritten]
    exact List.mem_map.mpr ⟨(e.key, u), hu, if_pos rfl⟩
  · intro k hright w hw
    have hthere := hright w hw
    rw [hwritten]
    refine List.mem_map.mpr ⟨(k, w), hthere, ?_⟩
    by_cases hk : k = e.key
    · subst hk
      obtain rfl := h.eq_of_mem hv hw
      exact if_pos rfl
    · exact if_neg hk

/-- A table that writes a section down is read as this section. -/
theorem Takes.readSection (h : Takes entries written t) {default : σ} {table : List (String × Value)}
    (hwrites : Writes (written t) (written default) table) (typeName : String) :
    Schema.readSection typeName entries default (.table table) = .ok t := by
  have hgood : ∀ p ∈ table, ∀ e ∈ entries, e.key = p.1 → (p.1, p.2) ∈ written t := by
    rintro ⟨key, v⟩ hp e he rfl
    obtain ⟨w, hw⟩ := h.exists_value he t
    obtain rfl : v = w := hwrites.agrees _ hp _ hw rfl
    exact hw
  have hall : ∀ e ∈ entries, (∀ v, (e.key, v) ∈ written t → (e.key, v) ∈ written default) ∨
      e.key ∈ table.map Prod.fst := by
    intro e he
    by_cases hthere : e.key ∈ table.map Prod.fst
    · exact Or.inr hthere
    · refine Or.inl fun v hv => ?_
      rcases hwrites.complete _ hv with htable | hdefault
      · exact absurd (List.mem_map_of_mem htable) hthere
      · exact hdefault
  obtain ⟨s, hread, hright⟩ := h.fills.readEntries hgood hall
  obtain rfl : s = t := by
    refine h.ext s ?_
    rintro ⟨key, v⟩ hp
    obtain ⟨e, he, rfl⟩ := h.exists_entry hp
    exact hright e he v hp
  exact hread

theorem natural_ok {expected : String} {bound n : Nat} (h : n < bound) :
    natural expected bound (.integer n) = .ok n := by
  show (if _ then _ else _) = _
  rw [if_pos (by omega), Int.toNat_natCast]

theorem takes_receiver {t : ReceiverConfig} (h : t.ringCapacity < UInt64.size) :
    Takes receiver ReceiverConfig.entries t where
  keys := fun _ => rfl
  nodup := by decide
  set := by
    intro e he s v hv
    simp only [receiver, List.mem_cons, List.not_mem_nil, or_false] at he
    rcases he with rfl | rfl
    · obtain rfl : v = .integer t.ringCapacity := by simpa [ReceiverConfig.entries] using hv
      refine ⟨{ s with ringCapacity := t.ringCapacity }, ?_, rfl⟩
      dsimp only
      rw [natural_ok h]
      rfl
    · obtain rfl : v = .boolean t.startEnabled := by simpa [ReceiverConfig.entries] using hv
      exact ⟨{ s with startEnabled := t.startEnabled }, rfl, rfl⟩
  ext := by
    intro s hs
    cases s
    cases t
    simp [ReceiverConfig.entries] at hs
    obtain ⟨rfl, rfl⟩ := hs
    rfl

theorem takes_dispatch {t : DispatchConfig} (hdrain : t.drainInterval < UInt64.size)
    (hstats : t.statsInterval < UInt64.size) : Takes dispatch DispatchConfig.entries t where
  keys := fun _ => rfl
  nodup := by decide
  set := by
    intro e he s v hv
    simp only [dispatch, List.mem_cons, List.not_mem_nil, or_false] at he
    rcases he with rfl | rfl
    · obtain rfl : v = .integer t.drainInterval := by simpa [DispatchConfig.entries] using hv
      refine ⟨{ s with drainInterval := t.drainInterval }, ?_, rfl⟩
      dsimp only
      rw [natural_ok hdrain]
      rfl
    · obtain rfl : v = .integer t.statsInterval := by simpa [DispatchConfig.entries] using hv
      refine ⟨{ s with statsInterval := t.statsInterval }, ?_, rfl⟩
      dsimp only
      rw [natural_ok hstats]
      rfl
  ext := by
    intro s hs
    cases s
    cases t
    simp [DispatchConfig.entries] at hs
    obtain ⟨rfl, rfl⟩ := hs
    rfl

theorem takes_capture (t : CaptureConfig) : Takes capture CaptureConfig.entries t where
  keys := fun _ => rfl
  nodup := by decide
  set := by
    intro e he s v hv
    simp only [capture, List.mem_cons, List.not_mem_nil, or_false] at he
    rcases he with rfl | rfl
    · obtain rfl : v = .string t.path := by simpa [CaptureConfig.entries] using hv
      exact ⟨{ s with path := t.path }, rfl, rfl⟩
    · obtain rfl : v = .integer t.bitRate.toNat := by simpa [CaptureConfig.entries] using hv
      refine ⟨{ s with bitRate := t.bitRate }, ?_, rfl⟩
      dsimp only
      rw [natural_ok t.bitRate.toNat_lt]
      show Except.ok { s with bitRate := UInt32.ofNat t.bitRate.toNat } = _
      rw [UInt32.ofNat_toNat]
  ext := by
    intro s hs
    cases s
    cases t
    simp [CaptureConfig.entries, UInt32.toNat_inj] at hs
    obtain ⟨rfl, rfl⟩ := hs
    rfl

theorem takes_output (t : OutputConfig) : Takes output OutputConfig.entries t where
  keys := fun _ => rfl
  nodup := by decide
  set := by
    intro e he s v hv
    simp only [output, List.mem_cons, List.not_mem_nil, or_false] at he
    subst he
    obtain rfl : v = .string t.format := by simpa [OutputConfig.entries] using hv
    exact ⟨{ s with format := t.format }, rfl, rfl⟩
  ext := by
    intro s hs
    cases s
    cases t
    simp only [OutputConfig.entries, List.mem_singleton, forall_eq, Prod.mk.injEq, Value.string.injEq] at hs
    obtain ⟨-, rfl⟩ := hs
    rfl

theorem takes_logging (t : LoggingConfig) : Takes logging LoggingConfig.entries t where
  keys := fun _ => rfl
  nodup := by decide
  set := by
    intro e he s v hv
    simp only [logging, List.mem_cons, List.not_mem_nil, or_false] at he
    rcases he with rfl | rfl
    · obtain rfl : v = .string t.level := by simpa [LoggingConfig.entries] using hv
      exact ⟨{ s with level := t.level }, rfl, rfl⟩
    · obtain rfl : v = .string t.logDir := by simpa [LoggingConfig.entries] using hv
      exact ⟨{ s with logDir := t.logDir }, rfl, rfl⟩
  ext := by
    intro s hs
    cases s
    cases t
    simp [LoggingConfig.entries] at hs
    obtain ⟨rfl, rfl⟩ := hs
    rfl

/-! ## Documents -/

/-- A value that writes down the section of `c` with the given name. -/
structure Gives (c : Config) (name : String) (v : Value) : Prop where
  receiver : name = "receiver" →
    ∃ table, v = .table table ∧ Writes c.receiver.entries (ReceiverConfig.entries {}) table
  dispatch : name = "dispatch" →
    ∃ table, v = .table table ∧ Writes c.dispatch.entries (DispatchConfig.entries {}) table
  capture : name = "capture" →
    ∃ table, v = .table table ∧ Writes c.capture.entries (CaptureConfig.entries {}) table
  output : name = "output" →
    ∃ table, v = .table table ∧ Writes c.output.entries (OutputConfig.entries {}) table
  logging : name = "logging" →
    ∃ table, v = .table table ∧ Writes c.logging.entries (LoggingConfig.entries {}) table

/-- The section of `c` with the given name has been read. -/
structure Has (c : Config) (s : Sections) (name : String) : Prop where
  receiver : name = "receiver" → s.receiver = some c.receiver
  dispatch : name = "dispatch" → s.dispatch = some c.dispatch
  capture : name = "capture" → s.capture = some c.capture
  output : name = "output" → s.output = some c.output
  logging : name = "logging" → s.logging = some c.logging

theorem fills_sections (hring : c.receiver.ringCapacity < UInt64.size)
    (hdrain : c.dispatch.drainInterval < UInt64.size) (hstats : c.dispatch.statsInterval < UInt64.size) :
    Fills sections (Gives c) (Has c) := by
  intro e he s v hv
  simp only [sections, List.mem_cons, List.not_mem_nil, or_false] at he
  rcases he with rfl | rfl | rfl | rfl | rfl
  · obtain ⟨table, rfl, hwrites⟩ := hv.receiver rfl
    refine ⟨{ s with receiver := some c.receiver }, ?_, by constructor <;> simp, fun k hk => ?_⟩
    · dsimp only
      rw [(takes_receiver hring).readSection hwrites]
      rfl
    · exact { hk with receiver := fun _ => rfl }
  · obtain ⟨table, rfl, hwrites⟩ := hv.dispatch rfl
    refine ⟨{ s with dispatch := some c.dispatch }, ?_, by constructor <;> simp, fun k hk => ?_⟩
    · dsimp only
      rw [(takes_dispatch hdrain hstats).readSection hwrites]
      rfl
    · exact { hk with dispatch := fun _ => rfl }
  · obtain ⟨table, rfl, hwrites⟩ := hv.capture rfl
    refine ⟨{ s with capture := some c.capture }, ?_, by constructor <;> simp, fun k hk => ?_⟩
    · dsimp only
      rw [(takes_capture _).readSection hwrites]
      rfl
    · exact { hk with capture := fun _ => rfl }
  · obtain ⟨table, rfl, hwrites⟩ := hv.output rfl
    refine ⟨{ s with output := some c.output }, ?_, by constructor <;> simp, fun k hk => ?_⟩
    · dsimp only
      rw [(takes_output _).readSection hwrites]
      rfl
    · exact { hk with output := fun _ => rfl }
  · obtain ⟨table, rfl, hwrites⟩ := hv.logging rfl
    refine ⟨{ s with logging := some c.logging }, ?_, by constructor <;> simp, fun k hk => ?_⟩
    · dsimp only
      rw [(takes_logging _).readSection hwrites]
      rfl
    · exact { hk with logging := fun _ => rfl }

end Schema

open Schema in
theorem Config.ofEntries_of_writtenAs {tree : List (String × Value)} (hbounds : c.InBounds)
    (h : c.WrittenAs tree) : Config.ofEntries tree = .ok c := by
  obtain ⟨⟨-, hring⟩, ⟨-, hdrain⟩, hstats, -, -, -, -⟩ := hbounds
  have hsize : UInt64.size = 18446744073709551616 := rfl
  have hgood : ∀ p ∈ tree, ∀ e ∈ sections, e.key = p.1 → Gives c p.1 p.2 := by
    rintro ⟨name, v⟩ hp - - -
    constructor
    · rintro rfl
      exact h.receiver.writes v hp
    · rintro rfl
      exact h.dispatch.writes v hp
    · rintro rfl
      exact h.capture.writes v hp
    · rintro rfl
      exact h.output.writes v hp
    · rintro rfl
      exact h.logging.writes v hp
  have hthere : ∀ e ∈ sections, Has c {} e.key ∨ e.key ∈ tree.map Prod.fst := by
    intro e he
    simp only [sections, List.mem_cons, List.not_mem_nil, or_false] at he
    rcases he with rfl | rfl | rfl | rfl | rfl
    · exact Or.inr h.receiver.present
    · exact Or.inr h.dispatch.present
    · exact Or.inr h.capture.present
    · exact Or.inr h.output.present
    · exact Or.inr h.logging.present
  obtain ⟨s, hread, hhas⟩ :=
    (fills_sections (by omega) (by omega) (by omega)).readEntries hgood hthere
  have hname {name : String} (hmem : name ∈ sections.map Entry.key) : Has c s name := by
    obtain ⟨e, he, rfl⟩ := List.mem_map.mp hmem
    exact hhas e he
  have hreceiver := (hname (by decide : "receiver" ∈ _)).receiver rfl
  have hdispatch := (hname (by decide : "dispatch" ∈ _)).dispatch rfl
  have hcapture := (hname (by decide : "capture" ∈ _)).capture rfl
  have houtput := (hname (by decide : "output" ∈ _)).output rfl
  have hlogging := (hname (by decide : "logging" ∈ _)).logging rfl
  obtain ⟨_, _, _, _, _⟩ := s
  cases hreceiver
  cases hdispatch
  cases hcapture
  cases houtput
  cases hlogging
  rw [Config.ofEntries, hread]
  rfl

/-! ## Loading -/

theorem Config.ofTree_eq_ok_iff {tree : List (String × Value)} :
    Config.ofTree tree = .ok c ↔ Config.ofEntries tree = .ok c ∧ c.validate = .ok () := by
  unfold Config.ofTree
  cases Config.ofEntries tree with
  | error e => exact ⟨nofun, nofun⟩
  | ok c' =>
    show (c'.validate.mapError LoadError.violation >>= fun _ => pure c') = .ok c ↔ _
    cases hvalid : c'.validate with
    | error e =>
      constructor
      · nofun
      · rintro ⟨heq, hok⟩
        cases heq
        rw [hvalid] at hok
        cases hok
    | ok =>
      constructor
      · intro h
        cases h
        exact ⟨rfl, hvalid⟩
      · rintro ⟨heq, -⟩
        cases heq
        rfl

theorem Config.load_eq_ok_iff {file : Option ByteArray} :
    Config.load file = .ok c ↔
      ∃ text tree, readText file = .ok text ∧ Toml.parse? text = some tree ∧
        Config.ofTree tree = .ok c := by
  unfold Config.load
  constructor
  · intro h
    cases hfile : readText file with
    | error e =>
      rw [hfile] at h
      cases h
    | ok text =>
      simp only [hfile, Except.mapError, bind, Except.bind] at h
      cases hparse : Toml.parse? text with
      | none =>
        rw [hparse] at h
        cases h
      | some tree =>
        rw [hparse] at h
        exact ⟨text, tree, rfl, hparse, h⟩
  · rintro ⟨text, tree, hfile, hparse, htree⟩
    simp only [hfile, hparse, Except.mapError, bind, Except.bind]
    exact htree

/-- **A document is loaded as the configuration that it writes down.** If a configuration is valid, every
document with its five sections is read as this configuration and no other: in whatever order the
sections and their entries are, whichever entries are left out that have their default, and whatever
else there is. Every file with the text of such a document is loaded so. Whatever is loaded keeps all
bounds, so its ring can be used and its sample rate and polling interval are not zero. -/
theorem Config.load_document (c : Config) :
    (∀ tree, c.WrittenAs tree → c.validate = .ok () →
      Config.ofTree tree = .ok c ∧
      ∀ file text, readText file = .ok text → Toml.parse? text = some tree →
        Config.load file = .ok c) ∧
    ∀ file, Config.load file = .ok c →
      c.InBounds ∧ (FrameRing.ofCapacity c.receiver.ringCapacity).isInitialized = true ∧
        c.capture.bitRate ≠ 0 ∧ c.dispatch.drainInterval ≠ 0 := by
  constructor
  · intro tree hwritten hvalid
    have hentries := Config.ofEntries_of_writtenAs (validate_eq_ok_iff.mp hvalid) hwritten
    have htree := ofTree_eq_ok_iff.mpr ⟨hentries, hvalid⟩
    refine ⟨htree, fun file text hfile hparse => ?_⟩
    exact load_eq_ok_iff.mpr ⟨text, tree, hfile, hparse, htree⟩
  · intro file h
    obtain ⟨_, tree, -, -, htree⟩ := load_eq_ok_iff.mp h
    have hbounds := validate_eq_ok_iff.mp (ofTree_eq_ok_iff.mp htree).2
    refine ⟨hbounds, hbounds.isInitialized, ?_, ?_⟩
    · intro hzero
      have hrate := hbounds.bitRate.1
      rw [hzero] at hrate
      exact absurd hrate (by decide)
    · exact Nat.ne_of_gt hbounds.drainInterval.1

/-- Two values that are no defaults, an entry and a section that are not known, and the sections in an
order of their own. -/
theorem Config.load_document_sparse :
    let text := "[logging]\nlevel = \"debug\"\n[output]\n[receiver]\ncolour = 1\n" ++
      "ring_capacity = 300\n[dispatch]\n[meter]\n[capture]\n"
    let tree : List (String × Value) :=
      [("logging", .table [("level", .string "debug")]), ("output", .table []),
        ("receiver", .table [("colour", .integer 1), ("ring_capacity", .integer 300)]),
        ("dispatch", .table []), ("meter", .table []), ("capture", .table [])]
    let c : Config := { receiver := { ringCapacity := 300 }, logging := { level := "debug" } }
    readText (some text.toUTF8) = .ok text ∧ Toml.parse? text = some tree ∧ c.WrittenAs tree ∧
      c.validate = .ok () ∧ Config.load (some text.toUTF8) = .ok c ∧ c.InBounds := by
  intro text tree c
  have hfile : readText (some text.toUTF8) = .ok text := by decide +kernel
  have hparse : Toml.parse? text = some tree := by decide +kernel
  have hnodup : (tree.map Prod.fst).Nodup := by decide
  have hwritten : c.WrittenAs tree := by
    constructor
    · exact HasSection.of_mem hnodup (List.mem_of_getElem? (i := 2) rfl) ⟨by decide, by decide⟩
    · exact HasSection.of_mem hnodup (List.mem_of_getElem? (i := 3) rfl) ⟨by decide, by decide⟩
    · exact HasSection.of_mem hnodup (List.mem_of_getElem? (i := 5) rfl) ⟨by decide, by decide⟩
    · exact HasSection.of_mem hnodup (List.mem_of_getElem? (i := 1) rfl) ⟨by decide, by decide⟩
    · exact HasSection.of_mem hnodup (List.mem_of_getElem? (i := 0) rfl) ⟨by decide, by decide⟩
  have hvalid : c.validate = .ok () := by decide
  obtain ⟨hwrites, hkeeps⟩ := load_document c
  have hload := (hwrites tree hwritten hvalid).2 _ text hfile hparse
  exact ⟨hfile, hparse, hwritten, hvalid, hload, (hkeeps _ hload).1⟩

end MeterRadio
