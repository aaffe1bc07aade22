import PregroupGrammar.Codec.Grammar
import PregroupGrammar.Codec.Outcome
import PregroupGrammar.Codec.Settings
import PregroupGrammar.Proofs.JsonText
import PregroupGrammar.Proofs.MetaruleForm

/-!
# Encoded values decode to themselves

Whatever the library writes as JSON it reads back as the same value. Records are objects with
different keys, and such an object gives each key its own value (`Json.parts?_obj`,
`Json.record?_obj`); lists and optional values decode if what they hold does. With these, each type
has its lemma `ofJson?_toJson`, and for atoms it is by induction on how deep the runs are nested.

Counts are natural numbers here and numbers of 64 bits in JSON, so a value that holds counts decodes
if they are below `Numeral.countLimit`, which its `Counted` says.
-/

namespace PregroupGrammar

namespace Json

variable {α : Type} {decode : Json → Option α} {encode : α → Json} {fields : List (String × Json)}

theorem filter_key (hkeys : (fields.map Prod.fst).Nodup) {field : String × Json}
    (h : field ∈ fields) : fields.filter (·.1 == field.1) = [field] := by
  induction fields with
  | nil => simp at h
  | cons f fields ih =>
    rw [List.map_cons, List.nodup_cons] at hkeys
    obtain ⟨hfirst, hkeys⟩ := hkeys
    rw [List.filter_cons]
    rcases List.mem_cons.1 h with rfl | h
    · have hothers : fields.filter (·.1 == field.1) = [] := by
        rw [List.filter_eq_nil_iff]
        intro f hf heq
        exact hfirst (List.mem_map.2 ⟨f, hf, eq_of_beq heq⟩)
      rw [if_pos (beq_self_eq_true _), hothers]
    · have hne : ¬(f.1 == field.1) = true := fun heq =>
        hfirst (List.mem_map.2 ⟨field, h, (eq_of_beq heq).symm⟩)
      rw [if_neg hne, ih hkeys h]

theorem mapM_map {β : Type} {decode : β → Option α} {encode : α → β} {as : List α}
    (h : ∀ a ∈ as, decode (encode a) = some a) : (as.map encode).mapM decode = some as := by
  induction as with
  | nil => rfl
  | cons a as ih =>
    obtain ⟨ha, has⟩ := List.forall_mem_cons.1 h
    simp [ha, ih has]

/-- An object with different keys gives each of them its value. -/
theorem record?_obj (hkeys : (fields.map Prod.fst).Nodup) (least : Nat) :
    (obj fields).record? (fields.map Prod.fst) least = some (fields.map fun f => some f.2) := by
  have hfield : ∀ {asked : List (String × Json)}, (∀ f ∈ asked, f ∈ fields) →
      (asked.map Prod.fst).mapM (field? fields) = some (asked.map fun f => some f.2) := by
    intro asked hasked
    induction asked with
    | nil => rfl
    | cons f asked ih =>
      obtain ⟨hf, hrest⟩ := List.forall_mem_cons.1 hasked
      have hkey : field? fields f.1 = some (some f.2) := by rw [field?, filter_key hkeys hf]
      simp [hkey, ih hrest]
  exact hfield fun f hf => hf

theorem parts?_obj (hkeys : (fields.map Prod.fst).Nodup) :
    (obj fields).parts? (fields.map Prod.fst) = some (fields.map Prod.snd) := by
  have hgiven : (fields.map fun f => some f.2).mapM id = some (fields.map Prod.snd) := by
    induction fields with
    | nil => rfl
    | cons f fields ih =>
      rw [List.map_cons, List.nodup_cons] at hkeys
      simp [ih hkeys.2]
  rw [parts?, record?_obj hkeys, Option.bind_some, hgiven]

theorem count?_nat {n : Nat} (h : n < Numeral.countLimit) : (nat n).count? = some n := by
  rw [count?, nat, int?, Option.bind_some, Numeral.toCount?_natCast h]

theorem list?_map {as : List α} (h : ∀ a ∈ as, decode (encode a) = some a) :
    (arr (as.map encode)).list? decode = some as :=
  mapM_map h

theorem list?_strs (texts : List String) : (strs texts).list? str? = some texts :=
  list?_map fun _ _ => rfl

theorem optional?_orNull {a : Option α}
    (h : ∀ v ∈ a, encode v ≠ null ∧ decode (encode v) = some v) :
    optional? decode (some (orNull (a.map encode))) = some a := by
  rcases a with _ | v
  · rfl
  · obtain ⟨hnull, hdecode⟩ := h v rfl
    rw [Option.map_some, orNull, Option.getD_some]
    unfold optional?
    split <;> simp_all

end Json

section Types

theorem Marker.ofJson?_toJson (m : Marker) : ofJson? m.toJson = some m := by
  have hparts : m.toJson.parts? ["category", "value"] = some [_, _] := Json.parts?_obj (by simp)
  rw [ofJson?, hparts]
  simp [Json.nat, Json.int?, Numeral.toUInt16?_toNat, Numeral.toUInt32?_toNat]

namespace Atom

/-- What is left to decode once the name and the adjoint are read. -/
theorem ofJson?_record (name : String) (e : Int32) (kind : Json) :
    ofJson? (record name e kind) =
      match kind.choice? with
      | some ("Concrete", some markers) => (markersOfJson? markers).map (concrete name e)
      | some ("Generic", some binding) =>
        match binding.choice? with
        | some ("Unbound", extra) => if Json.isBare extra then some (generic name e) else none
        | some ("Bound", some (.arr run)) => (run.mapM ofJson?).map (bound name e)
        | _ => none
      | _ => none := by
  have hparts : (record name e kind).parts? ["name", "adjoint", "kind"] =
      some [.str name, .int e.toInt, kind] := Json.parts?_obj (by simp)
  rw [ofJson?]
  split
  · rename_i hj
    rw [hparts] at hj
    cases hj
    simp only [Json.str?, Json.int?, Option.bind_some, Numeral.toInt32?_toInt, List.mapM_subtype,
      List.unattach_attach]
    split
    · simp only [*]
    · rename_i binding hk
      simp only [hk]
      split <;> simp only [*]
    · simp only [*]
  · rename_i hj
    exact absurd hparts (hj _ _ _)

theorem markersOfJson?_obj (markers : List Marker) :
    markersOfJson? (.obj [("markers", .arr (markers.map Marker.toJson))]) = some markers := by
  have hparts : (Json.obj [("markers", .arr (markers.map Marker.toJson))]).parts? ["markers"] =
      some [_] := Json.parts?_obj (by simp)
  rw [markersOfJson?, Json.object?, Option.bind_some, hparts]
  exact Json.list?_map fun m _ => m.ofJson?_toJson

theorem mapM_runToJson {run : List Atom} (h : ∀ a ∈ run, ofJson? a.toJson = some a) :
    (runToJson run).mapM ofJson? = some run := by
  induction run with
  | nil => rfl
  | cons a run ih =>
    obtain ⟨ha, hrun⟩ := List.forall_mem_cons.1 h
    simp [runToJson, ha, ih hrun]

theorem ofJson?_toJson (a : Atom) : ofJson? a.toJson = some a := by
  match a with
  | concrete name e markers =>
    rw [toJson, ofJson?_record]
    exact congrArg (Option.map (concrete name e)) (markersOfJson?_obj markers)
  | generic name e =>
    rw [toJson, ofJson?_record]
    rfl
  | bound name e run =>
    have hrun : ∀ b ∈ run, ofJson? b.toJson = some b := fun b hb => ofJson?_toJson b
    rw [toJson, ofJson?_record]
    exact congrArg (Option.map (bound name e)) (mapM_runToJson hrun)
termination_by sizeOf a
decreasing_by
  have := List.sizeOf_lt_of_mem hb
  simp only [bound.sizeOf_spec]
  omega

end Atom

theorem WordType.ofJson?_toJson (t : WordType) : ofJson? t.toJson = some t := by
  have hparts : t.toJson.parts? ["atoms"] = some [_] := Json.parts?_obj (by simp)
  have hatoms : (Json.arr (t.atoms.map Atom.toJson)).list? Atom.ofJson? = some t.atoms :=
    Json.list?_map fun a _ => a.ofJson?_toJson
  rw [ofJson?, hparts]
  simp [hatoms]

theorem WordType.list?_toJson (types : List WordType) :
    (Json.arr (types.map WordType.toJson)).list? WordType.ofJson? = some types :=
  Json.list?_map fun t _ => t.ofJson?_toJson

end Types

section Grammar

namespace Metarule

/-- The JSON value has the three parts of a metarule, which decode to these. -/
def HasParts (j : Json) (tag : Int64) (pattern target : WordType) : Prop :=
  ∃ first second third, j.parts? ["tag", "pattern", "target"] = some [first, second, third] ∧
    first.int?.bind Numeral.toInt64? = some tag ∧ WordType.ofJson? second = some pattern ∧
    WordType.ofJson? third = some target

/-- A metarule decodes as its parts do, and is checked as it is made. -/
theorem ofJson?_eq_some {j : Json} {result : Except InvalidMetarule Metarule} :
    ofJson? j = some result ↔
      ∃ tag pattern target, HasParts j tag pattern target ∧ make tag pattern target = result := by
  unfold ofJson?
  constructor
  · intro h
    split at h
    · rename_i first second third hparts
      simp only [Option.bind_eq_bind, Option.pure_def] at h
      obtain ⟨tag, htag, h⟩ := Option.bind_eq_some_iff.1 h
      obtain ⟨pattern, hpattern, h⟩ := Option.bind_eq_some_iff.1 h
      obtain ⟨target, htarget, h⟩ := Option.bind_eq_some_iff.1 h
      obtain rfl := Option.some.inj h
      exact ⟨tag, pattern, target, ⟨first, second, third, hparts, htag, hpattern, htarget⟩, rfl⟩
    · simp at h
  · rintro ⟨tag, pattern, target, ⟨first, second, third, hparts, htag, hpattern, htarget⟩, rfl⟩
    rw [hparts]
    simp [htag, hpattern, htarget]

theorem ofJson?_toJson (rule : Metarule) : ofJson? rule.toJson = some (.ok rule) := by
  have hparts : rule.toJson.parts? ["tag", "pattern", "target"] = some [_, _, _] :=
    Json.parts?_obj (by simp)
  have hmake : make rule.tag rule.pattern rule.target = .ok rule := make_eq_ok.2 ⟨rfl, rfl, rfl⟩
  refine ofJson?_eq_some.2 ⟨rule.tag, rule.pattern, rule.target, ⟨_, _, _, hparts, ?_, ?_, ?_⟩,
    hmake⟩
  · exact Numeral.toInt64?_toInt rule.tag
  · exact rule.pattern.ofJson?_toJson
  · exact rule.target.ofJson?_toJson

end Metarule

namespace Iteration

/-- The number of rounds is a count of 64 bits. -/
def Counted (i : Iteration) : Prop :=
  i.limit < Numeral.countLimit

theorem ofJson?_toJson {i : Iteration} (h : i.Counted) (arrays : Bool) :
    ofJson? arrays i.toJson = some i := by
  cases i with
  | rounds n =>
    have hn : (Json.nat n).count? = some n := Json.count?_nat h
    simp [ofJson?, toJson, Json.choice?, hn]
  | fixedPoint n =>
    have hn : (Json.nat n).count? = some n := Json.count?_nat h
    have hparts : (Json.obj [("max_rounds", .nat n)]).parts? ["max_rounds"] = some [_] :=
      Json.parts?_obj (by simp)
    simp [ofJson?, toJson, Json.choice?, Json.object?, hn, hparts]

end Iteration

namespace ExpansionReport

/-- The numbers of an expansion report are counts of 64 bits. -/
structure Counted (r : ExpansionReport) : Prop where
  roundsRun : r.roundsRun < Numeral.countLimit
  added : r.added < Numeral.countLimit
  ambiguous : r.ambiguous < Numeral.countLimit

theorem ofJson?_toJson {r : ExpansionReport} (h : r.Counted) : ofJson? r.toJson = some r := by
  have hparts : r.toJson.parts? ["rounds_run", "added", "ambiguous", "converged"] =
      some [_, _, _, _] := Json.parts?_obj (by simp)
  rw [ofJson?, hparts]
  simp [Json.count?_nat h.roundsRun, Json.count?_nat h.added, Json.count?_nat h.ambiguous,
    Json.bool?]

end ExpansionReport

namespace ReductionTable

/-- The numbers of the type names are counts of 64 bits. -/
def Counted (t : ReductionTable) : Prop :=
  ∀ pair ∈ t.index.pairs, pair.2 < Numeral.countLimit

theorem ofParts_parts (t : ReductionTable) :
    ofParts t.inventory t.dummy t.index.pairs t.matrix = t := by
  obtain ⟨inventory, size, rfl, dummy, index, matrix⟩ := t
  have hindex : KeyedList.ofPairs index.pairs = index := KeyedList.eq_of_pairs_eq rfl
  rw [ofParts, hindex]

theorem ofJson?_toJson {t : ReductionTable} (h : t.Counted) : ofJson? t.toJson = some t := by
  have hparts : t.toJson.parts? ["inventory", "dummy", "index", "matrix"] = some [_, _, _, _] :=
    Json.parts?_obj (by simp)
  have hindex : ∀ {encode : String × Nat → String × Json},
      (∀ pair, encode pair = (pair.1, .nat pair.2)) →
        indexOfJson? (.obj (t.index.pairs.map encode)) = some t.index.pairs := by
    intro encode hencode
    refine Json.mapM_map fun pair hpair => ?_
    simp [hencode, Json.count?_nat (h pair hpair)]
  have hmatrix : (Json.arr (t.matrix.toList.map .bool)).list? Json.bool? = some t.matrix.toList :=
    Json.list?_map fun _ _ => rfl
  rw [ofJson?, hparts]
  simp [Json.list?_strs, Json.str?, hindex, hmatrix, ofParts_parts]

end ReductionTable

theorem Morphology.ofJson?_toJson (m : Morphology) : ofJson? m.toJson = some m := by
  have hparts : m.toJson.parts?
      ["verbal_suffixes", "noun_suffixes", "adjective_suffixes", "irregulars"] =
      some [_, _, _, _] := Json.parts?_obj (by simp)
  have hirregulars : ∀ {encode : String × String → Json},
      (∀ pair, encode pair = .strs [pair.1, pair.2]) →
        (Json.arr (m.irregulars.map encode)).list? (Json.pair? Json.str? Json.str?) =
          some m.irregulars := by
    intro encode hencode
    refine Json.list?_map fun pair _ => ?_
    rw [hencode]
    rfl
  rw [ofJson?, hparts]
  simp [Json.list?_strs, hirregulars]

theorem Entry.ofJson?_toJson (e : Entry) : ofJson? e.toJson = some e := by
  have hparts : e.toJson.parts? ["word", "types"] = some [_, _] := Json.parts?_obj (by simp)
  rw [ofJson?, hparts]
  simp [Json.str?, WordType.list?_toJson]

end Grammar

section Outcomes

/-- The ends of a link are counts of 64 bits. -/
def Link.Counted (link : Link) : Prop :=
  link.left < Numeral.countLimit ∧ link.right < Numeral.countLimit

theorem Link.ofJson?_toJson {link : Link} (h : link.Counted) : ofJson? link.toJson = some link := by
  have hparts : link.toJson.parts? ["left", "right"] = some [_, _] := Json.parts?_obj (by simp)
  rw [ofJson?, hparts]
  simp [Json.count?_nat h.1, Json.count?_nat h.2]

/-- The places of a repair are counts of 64 bits. -/
def Repair.Counted (r : Repair) : Prop :=
  r.first < Numeral.countLimit ∧ r.second < Numeral.countLimit

theorem Repair.ofJson?_toJson {r : Repair} (h : r.Counted) : ofJson? r.toJson = some r := by
  have hparts : r.toJson.parts? ["atom_type", "positions"] = some [_, _] :=
    Json.parts?_obj (by simp)
  rw [ofJson?, hparts]
  simp [Json.pair?, Json.str?, Json.count?_nat h.1, Json.count?_nat h.2]

namespace Acceptance

/-- The numbers of an acceptance are counts of 64 bits. -/
structure Counted (a : Acceptance) : Prop where
  pathIndex : a.pathIndex < Numeral.countLimit
  links : ∀ link ∈ a.links, link.Counted
  nestingDepth : a.nestingDepth < Numeral.countLimit
  repair : ∀ r ∈ a.repair, r.Counted

theorem ofJson?_toJson {a : Acceptance} (h : a.Counted) : ofJson? a.toJson = some a := by
  have hrecord : a.toJson.record?
      ["path_index", "path", "links", "residual", "nesting_depth", "repair"] 6 =
      some [some _, some _, some _, some _, some _, some _] := Json.record?_obj (by simp) 6
  have hlinks : (Json.arr (a.links.map Link.toJson)).list? Link.ofJson? = some a.links :=
    Json.list?_map fun link hlink => Link.ofJson?_toJson (h.links link hlink)
  have hrepair : Json.optional? Repair.ofJson? (some (.orNull (a.repair.map Repair.toJson))) =
      some a.repair :=
    Json.optional?_orNull fun r hr =>
      ⟨by simp [Repair.toJson], Repair.ofJson?_toJson (h.repair r hr)⟩
  rw [ofJson?, hrecord]
  simp [Json.count?_nat h.pathIndex, Json.count?_nat h.nestingDepth, WordType.list?_toJson, hlinks,
    Atom.ofJson?_toJson, hrepair]

end Acceptance

namespace Outcome

/-- The numbers of an outcome are counts of 64 bits. -/
structure Counted (o : Outcome) : Prop where
  pathCount : o.pathCount < Numeral.countLimit
  acceptance : ∀ a ∈ o.acceptance, a.Counted

theorem ofJson?_toJson {o : Outcome} (h : o.Counted) : ofJson? o.toJson = some o := by
  have hrecord : o.toJson.record? ["sentence", "path_count", "acceptance"] 3 =
      some [some _, some _, some _] := Json.record?_obj (by simp [fields]) 3
  have hacceptance : Json.optional? Acceptance.ofJson?
      (some (.orNull (o.acceptance.map Acceptance.toJson))) = some o.acceptance :=
    Json.optional?_orNull fun a ha =>
      ⟨by simp [Acceptance.toJson], Acceptance.ofJson?_toJson (h.acceptance a ha)⟩
  rw [ofJson?, hrecord]
  simp [Json.list?_strs, Json.count?_nat h.pathCount, hacceptance]

end Outcome

end Outcomes

section Settings

theorem RepairStrategy.ofJson?_toJson (s : RepairStrategy) : ofJson? s.toJson = some s := by
  cases s <;> rfl

-- The next two lemmas leave the encoded parts open. With the parts in their place, decoding would
-- be unfolded down to a comparison with `Numeral.countLimit`, and that to its last successor.

theorem ParserSettings.ofJson?_of_record {j threshold strategy : Json} {s : ParserSettings}
    (hrecord : j.record? ["repair_threshold", "repair_strategy"] 0 =
      some [some threshold, some strategy])
    (hthreshold : threshold.count? = some s.repairThreshold)
    (hstrategy : RepairStrategy.ofJson? strategy = some s.repairStrategy) :
    ofJson? j = some s := by
  rw [ofJson?, hrecord]
  simp [Json.orDefault?, hthreshold, hstrategy]

namespace Settings

theorem ofJson?_of_record {j grammar parser : Json} {s : Settings}
    (hrecord : j.record? ["grammar", "parser"] 0 = some [some grammar, some parser])
    (hgrammar : GrammarSettings.ofJson? grammar = some s.grammar)
    (hparser : ParserSettings.ofJson? parser = some s.parser) : ofJson? j = some s := by
  rw [ofJson?, hrecord]
  simp [Json.orDefault?, hgrammar, hparser]

/-- The numbers of the settings are counts of 64 bits. -/
structure Counted (s : Settings) : Prop where
  iteration : s.grammar.iteration.Counted
  repairThreshold : s.parser.repairThreshold < Numeral.countLimit

theorem ofJson?_toJson {s : Settings} (h : s.Counted) : ofJson? s.toJson = some s := by
  have hgrammar : GrammarSettings.ofJson? s.grammar.toJson = some s.grammar := by
    have hrecord : s.grammar.toJson.record? ["dummy_type", "metarule_iteration"] 0 =
        some [some _, some _] := Json.record?_obj (by simp) 0
    rw [GrammarSettings.ofJson?, hrecord]
    simp [Json.orDefault?, Json.str?, Iteration.ofJson?_toJson h.iteration]
  have hparser : ParserSettings.ofJson? s.parser.toJson = some s.parser := by
    have hrecord : s.parser.toJson.record? ["repair_threshold", "repair_strategy"] 0 =
        some [some _, some _] := Json.record?_obj (by simp) 0
    exact ParserSettings.ofJson?_of_record hrecord (Json.count?_nat h.repairThreshold)
      (RepairStrategy.ofJson?_toJson _)
  have hrecord : s.toJson.record? ["grammar", "parser"] 0 = some [some _, some _] :=
    Json.record?_obj (by simp) 0
  exact ofJson?_of_record hrecord hgrammar hparser

theorem bounded_toJson {s : Settings} (h : s.Counted) : s.toJson.Bounded := by
  have hcount {n : Nat} (hn : n < Numeral.countLimit) : (Json.nat n).Bounded := .int (by simpa)
  have hiteration : s.grammar.iteration.toJson.Bounded := by
    have hlimit : s.grammar.iteration.limit < Numeral.countLimit := h.iteration
    rcases hi : s.grammar.iteration with n | n <;> rw [hi, Iteration.limit] at hlimit
    · exact .obj (by simpa using hcount hlimit)
    · have hrecord : (Json.obj [("max_rounds", .nat n)]).Bounded :=
        .obj (by simpa using hcount hlimit)
      exact .obj (by simpa using hrecord)
  have hgrammar : s.grammar.toJson.Bounded :=
    .obj (by simpa using ⟨.str _, hiteration⟩)
  have hparser : s.parser.toJson.Bounded :=
    .obj (by simpa using ⟨hcount h.repairThreshold, .str _⟩)
  exact .obj (by simpa using ⟨hgrammar, hparser⟩)

/-- Encoded settings are read as they were, unless something is wrong with them. -/
theorem ofText_text {s : Settings} (h : s.Counted) :
    ofText s.toJson.text = .ok s ↔ s.fault? = none := by
  rw [ofText, Json.ofText?_text (bounded_toJson h)]
  simp only [decode, ofJson?_toJson h]
  rcases s.fault? with _ | fault <;> simp

end Settings

end Settings

/-- Every value decodes from its encoding, the counts in it being numbers of 64 bits. JSON decodes
to a metarule exactly if its parts do and make one, and to none that is not well formed. Settings
that are read from the text of their encoding come back exactly if nothing is wrong with them. -/
theorem encodings_decode :
    (∀ a : Atom, Atom.ofJson? a.toJson = some a) ∧
    (∀ t : WordType, WordType.ofJson? t.toJson = some t) ∧
    (∀ rule : Metarule, Metarule.ofJson? rule.toJson = some (.ok rule)) ∧
    (∀ t : ReductionTable, t.Counted → ReductionTable.ofJson? t.toJson = some t) ∧
    (∀ m : Morphology, Morphology.ofJson? m.toJson = some m) ∧
    (∀ e : Entry, Entry.ofJson? e.toJson = some e) ∧
    (∀ r : ExpansionReport, r.Counted → ExpansionReport.ofJson? r.toJson = some r) ∧
    (∀ (i : Iteration) (arrays : Bool), i.Counted → Iteration.ofJson? arrays i.toJson = some i) ∧
    (∀ (j : Json) (rule : Metarule), Metarule.ofJson? j = some (.ok rule) ↔
      ∃ tag pattern target, Metarule.HasParts j tag pattern target ∧
        Metarule.make tag pattern target = .ok rule) ∧
    (∀ (j : Json) (tag : Int64) (pattern target : WordType),
      Metarule.HasParts j tag pattern target →
        ((∃ rule, Metarule.ofJson? j = some (.ok rule)) ↔ Metarule.WellFormed pattern target)) ∧
    (∀ (j : Json) (rule : Metarule), Metarule.ofJson? j = some (.ok rule) →
      Metarule.WellFormed rule.pattern rule.target) ∧
    (∀ o : Outcome, o.Counted → Outcome.ofJson? o.toJson = some o) ∧
    (∀ s : Settings, s.Counted → Settings.ofJson? s.toJson = some s ∧
      (Settings.ofText s.toJson.text = .ok s ↔ s.fault? = none)) := by
  refine ⟨Atom.ofJson?_toJson, WordType.ofJson?_toJson, Metarule.ofJson?_toJson,
    fun _ => ReductionTable.ofJson?_toJson, Morphology.ofJson?_toJson, Entry.ofJson?_toJson,
    fun _ => ExpansionReport.ofJson?_toJson, fun _ arrays h => Iteration.ofJson?_toJson h arrays,
    fun _ _ => Metarule.ofJson?_eq_some, ?_, fun _ rule _ => rule.form,
    fun _ => Outcome.ofJson?_toJson, fun _ h => ⟨Settings.ofJson?_toJson h, Settings.ofText_text h⟩⟩
  intro j tag pattern target hparts
  have hread : Metarule.ofJson? j = some (Metarule.make tag pattern target) :=
    Metarule.ofJson?_eq_some.2 ⟨tag, pattern, target, hparts, rfl⟩
  simp only [hread, Option.some.injEq, Metarule.exists_make_eq_ok]

theorem encodings_decode_sample :
    let nested : Atom :=
      .bound "A*" (-1) [.generic "B*" 0, .bound "C*" 2 [.concrete "n" 0 [⟨1, 7⟩]]]
    let mended : Outcome :=
      ⟨["them", "sleeps"], 2, some ⟨1, [⟨[nested]⟩], [⟨0, 1⟩], .plain "s" 0, 1, some ⟨"n", 0, 3⟩⟩⟩
    let impatient : Settings := { parser := { repairThreshold := 1 } }
    mended.Counted ∧ Outcome.ofJson? mended.toJson = some mended ∧
      impatient.Counted ∧ Settings.ofText impatient.toJson.text ≠ .ok impatient := by
  intro nested mended impatient
  obtain ⟨-, -, -, -, -, -, -, -, -, -, -, houtcome, hsettings⟩ := encodings_decode
  have hmended : mended.Counted := by
    refine ⟨by decide, fun a ha => ?_⟩
    obtain rfl := Option.some.inj ha
    refine ⟨by decide, ?_, by decide, fun r hr => ?_⟩
    · simp [Link.Counted, Numeral.countLimit]
    · obtain rfl := Option.some.inj hr
      exact ⟨by decide, by decide⟩
  have himpatient : impatient.Counted := by
    refine ⟨?_, by decide⟩
    unfold Iteration.Counted
    decide
  refine ⟨hmended, houtcome mended hmended, himpatient, fun h => ?_⟩
  have hfault : impatient.fault? ≠ none := by decide
  exact hfault ((hsettings impatient himpatient).2.1 h)

end PregroupGrammar
