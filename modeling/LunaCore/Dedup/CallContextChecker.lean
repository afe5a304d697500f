import LunaCore.Schemes.Splice
import LunaCore.Values.Json

/-! The dedup of a stash: a checker of the host app, behind a projection of the records.

    records    {ext: a}   7           {ext: b}   {}
    projected  {id: a}    no object   {id: b}    missing ext
    forwarded  [{id: a},              {id: b}]
    verdicts   [None,                 exact]
    out        None       invalid     exact      invalid

    `build_call_context_checker` gives each record the checker's verdict on its projection, and one
    of its own where there is none. Python's `repr`, which a reason quotes, is a parameter. -/

namespace LunaCore.Dedup
open LunaCore.Schemes LunaCore.Values

structure DedupFieldSpec where
  name : String
  optional : Bool

/-- None where there is no duplicate. -/
structure DedupVerdict where
  matchKind : String
  existingId : Option String
  reason : String
  deriving DecidableEq

/-- What is raised through a tool's handler. -/
inductive Raised where
  | runtimeError (message : String)
  | indexError
  | foreign (error : String)
  deriving DecidableEq

structure DedupChecker where
  name : String
  requiredFields : List DedupFieldSpec
  handler : List Dict → Except Raised (List (Option DedupVerdict))

/-- A checker's fields with the fields of the records that they are read from. -/
structure StashDedupBinding where
  checker : DedupChecker
  fieldMap : List (String × String)
  distinct : (fieldMap.map Prod.fst).Nodup

namespace StashDedupBinding

variable (repr : Json → String) (binding : StashDedupBinding)

/-- `optional_canonicals`. -/
def optionalCanonicals : List String :=
  (binding.checker.requiredFields.filter (·.optional)).map (·.name)

/-- One pass of the loop over `field_map`: the fields so far, and the missing ones. -/
def projectField (record : Dict) (acc : Dict × List String) (field : String × String) :
    Dict × List String := match record.get field.2 with
  | some value => (acc.1.set field.1 value, acc.2)
  | none => if field.1 ∈ binding.optionalCanonicals then acc else (acc.1, acc.2 ++ [field.2])

/-- The verdict on what is no object. -/
def notAnObject : DedupVerdict :=
  ⟨"invalid_record", none, "record is not an object — cannot extract dedup fields"⟩

/-- The verdict on an object without these fields. -/
def missingFields (missing : List String) : DedupVerdict :=
  ⟨"invalid_record", none, "record is missing field(s) required for dedup: " ++
    repr (.arr (missing.map .str)) ++ ". Cannot check for duplicates without them."⟩

/-- The fields of an object that are mapped, and the missing ones. -/
def slim (record : Dict) : Dict × List String :=
  binding.fieldMap.foldl (binding.projectField record) ([], [])

/-- The projection of a record, or the verdict on it. -/
def project : Json → Except DedupVerdict Dict
  | .obj record =>
    if (binding.slim record).2 = [] then .ok (binding.slim record).1
    else .error (missingFields repr (binding.slim record).2)
  | _ => .error notAnObject

/-- The loop that puts the verdicts back. `next` has one for each projection, as they were counted;
    an iterator that ends in a coroutine is a RuntimeError. -/
def spliceVerdicts : List (Except DedupVerdict Dict) → List (Option DedupVerdict) →
    Except Raised (List (Option DedupVerdict))
  | [], _ => .ok []
  | .error miss :: projected, results =>
    (spliceVerdicts projected results).map fun out => some miss :: out
  | .ok _ :: projected, verdict :: results =>
    (spliceVerdicts projected results).map fun out => verdict :: out
  | .ok _ :: _, [] => .error (.runtimeError "coroutine raised StopIteration")

/-- The projections that go to the checker. -/
def forwardRecords (records : List Json) : List Dict :=
  records.filterMap fun record => (binding.project repr record).toOption

/-- The verdicts of the checker, as many as it was given records. -/
def forwardResults (forward : List Dict) : Except Raised (List (Option DedupVerdict)) :=
  if forward = [] then .ok []
  else match binding.checker.handler forward with
    | .error e => .error e
    | .ok results =>
      if results.length = forward.length then .ok results
      else .error (.runtimeError ("dedup checker " ++ repr (.str binding.checker.name) ++
        " returned " ++ toString results.length ++ " verdicts for " ++ toString forward.length ++
        " records"))

end StashDedupBinding

open StashDedupBinding

variable (repr : Json → String) (binding : StashDedupBinding)

/-- `build_call_context_checker`. -/
def buildCallContextChecker (records : List Json) : Except Raised (List (Option DedupVerdict)) :=
  match binding.forwardResults repr (binding.forwardRecords repr records) with
  | .error e => .error e
  | .ok results => spliceVerdicts (records.map (binding.project repr)) results

/-! ### The projection -/

variable {repr : Json → String} {binding : StashDedupBinding}

/-- The record is no object, or has no field for a required one that is mapped. -/
def StashDedupBinding.Lacks (binding : StashDedupBinding) : Json → Prop
  | .obj record => ∃ field ∈ binding.fieldMap,
      field.1 ∉ binding.optionalCanonicals ∧ Dict.get record field.2 = none
  | _ => True

/-- The fields that are missing, in the order of the map. -/
theorem missing_foldl (record : Dict) : ∀ (fields : List (String × String))
    (acc : Dict × List String), (fields.foldl (binding.projectField record) acc).2 = acc.2 ++
      (fields.filter fun field => record.get field.2 = none ∧
        field.1 ∉ binding.optionalCanonicals).map Prod.snd := by
  intro fields
  induction fields with
  | nil =>
    intro acc
    simp
  | cons field fields ih =>
    intro acc
    rw [List.foldl_cons, ih, projectField]
    cases hget : record.get field.2 with
    | some value => simp [hget]
    | none =>
      by_cases hoptional : field.1 ∈ binding.optionalCanonicals
      · simp [hget, hoptional]
      · simp [hget, hoptional]

theorem get_projectField_self {record : Dict} {acc : Dict × List String} {field : String × String}
    (hacc : acc.1.get field.1 = none) :
    (binding.projectField record acc field).1.get field.1 = record.get field.2 := by
  unfold projectField
  split
  case h_1 value hvalue => rw [Dict.get_set_self, hvalue]
  case h_2 hnone => split <;> rw [hnone, hacc]

theorem get_projectField_other {record : Dict} {acc : Dict × List String} {field : String × String}
    {canonical : String} (hne : canonical ≠ field.1) :
    (binding.projectField record acc field).1.get canonical = acc.1.get canonical := by
  unfold projectField
  split
  case h_1 => rw [Dict.get_set, if_neg hne]
  case h_2 => split <;> rfl

/-- A name that is not mapped is not projected. -/
theorem get_foldl_other {record : Dict} {canonical : String} :
    ∀ {fields : List (String × String)} {acc : Dict × List String},
      canonical ∉ fields.map Prod.fst →
      (fields.foldl (binding.projectField record) acc).1.get canonical = acc.1.get canonical := by
  intro fields
  induction fields with
  | nil =>
    intro acc _
    rfl
  | cons field fields ih =>
    intro acc hnot
    rw [List.map_cons] at hnot
    rw [List.foldl_cons, ih (List.not_mem_of_not_mem_cons hnot),
      get_projectField_other (List.ne_of_not_mem_cons hnot)]

/-- A field that is mapped is projected, if the record has it. -/
theorem get_foldl {record : Dict} {canonical source : String} :
    ∀ {fields : List (String × String)} {acc : Dict × List String},
      (fields.map Prod.fst).Nodup → (canonical, source) ∈ fields → acc.1.get canonical = none →
      (fields.foldl (binding.projectField record) acc).1.get canonical = record.get source := by
  intro fields
  induction fields with
  | nil =>
    intro acc _ hmem
    cases hmem
  | cons field fields ih =>
    intro acc hnodup hmem hacc
    rw [List.map_cons, List.nodup_cons] at hnodup
    rw [List.foldl_cons]
    rcases List.mem_cons.mp hmem with rfl | hmem
    · rw [get_foldl_other hnodup.1]
      exact get_projectField_self hacc
    · have hne : canonical ≠ field.1 := fun heq =>
        hnodup.1 (heq ▸ List.mem_map_of_mem (f := Prod.fst) hmem)
      exact ih hnodup.2 hmem ((get_projectField_other hne).trans hacc)

theorem slim_missing_iff {record : Dict} :
    (binding.slim record).2 = [] ↔ ¬ binding.Lacks (.obj record) := by
  rw [slim, missing_foldl, List.nil_append, List.map_eq_nil_iff, List.filter_eq_nil_iff]
  constructor
  · rintro hall ⟨field, hfield, hrequired, hget⟩
    exact hall field hfield (decide_eq_true ⟨hget, hrequired⟩)
  · intro hnot field hfield hmissing
    obtain ⟨hget, hrequired⟩ := of_decide_eq_true hmissing
    exact hnot ⟨field, hfield, hrequired, hget⟩

theorem project_ok_iff {record : Json} :
    (∃ slim, binding.project repr record = .ok slim) ↔ ¬ binding.Lacks record := by
  cases record with
  | obj record =>
    rw [← slim_missing_iff, project]
    by_cases hmissing : (binding.slim record).2 = []
    · rw [if_pos hmissing]
      exact iff_of_true ⟨_, rfl⟩ hmissing
    · rw [if_neg hmissing]
      exact iff_of_false (fun ⟨_, h⟩ => nomatch h) hmissing
  | _ => exact iff_of_false (fun ⟨_, h⟩ => nomatch h) fun h => h trivial

/-- A record that lacks something gets a verdict of the kind `invalid_record`. -/
theorem matchKind_of_project {record : Json} {miss : DedupVerdict}
    (h : binding.project repr record = .error miss) : miss.matchKind = "invalid_record" := by
  unfold project at h
  split at h
  · split at h
    · cases h
    · obtain rfl := Except.error.inj h
      rfl
  · obtain rfl := Except.error.inj h
    rfl

/-- The projection has each mapped field of the record under the checker's name for it. -/
theorem get_project {record slim : Dict} (h : binding.project repr (.obj record) = .ok slim)
    {canonical source : String} (hmap : (canonical, source) ∈ binding.fieldMap) :
    slim.get canonical = record.get source := by
  rw [project] at h
  split at h
  case isFalse => cases h
  case isTrue =>
    obtain rfl := Except.ok.inj h
    exact get_foldl binding.distinct hmap rfl

/-! ### The verdicts -/

/-- The checker answers with a verdict for each projection it is given. -/
def DedupChecker.Positional (checker : DedupChecker) : Prop :=
  ∀ forward, ∃ results, checker.handler forward = .ok results ∧ results.length = forward.length

/-- The verdict of a record without a projection. -/
def StashDedupBinding.settled (repr : Json → String) (binding : StashDedupBinding) (record : Json) :
    Option (Option DedupVerdict) := match binding.project repr record with
  | .error miss => some (some miss)
  | .ok _ => none

theorem settled_eq_some {record : Json} {miss : DedupVerdict}
    (h : binding.project repr record = .error miss) :
    binding.settled repr record = some (some miss) := by
  rw [settled, h]

theorem settled_eq_none {record : Json} {slim : Dict}
    (h : binding.project repr record = .ok slim) : binding.settled repr record = none := by
  rw [settled, h]

/-- What is forwarded is the projections of the records that have one. -/
theorem forwardRecords_forall₂ : ∀ records : List Json,
    List.Forall₂ (fun record slim => binding.project repr record = .ok slim)
      (unsettled (binding.settled repr) records) (binding.forwardRecords repr records) := by
  intro records
  induction records with
  | nil => exact .nil
  | cons record records ih =>
    cases hproject : binding.project repr record with
    | error miss =>
      rw [unsettled_cons_some (settled_eq_some hproject), forwardRecords,
        List.filterMap_cons_none (by rw [hproject]; rfl)]
      exact ih
    | ok slim =>
      rw [unsettled_cons_none (settled_eq_none hproject), forwardRecords,
        List.filterMap_cons_some (by rw [hproject]; rfl)]
      exact .cons hproject ih

theorem spliceVerdicts_eq : ∀ {records : List Json} {results : List (Option DedupVerdict)},
    results.length = (unsettled (binding.settled repr) records).length →
      spliceVerdicts (records.map (binding.project repr)) results =
        .ok (splice (records.map (binding.settled repr)) results) := by
  intro records
  induction records with
  | nil =>
    intro results _
    rfl
  | cons record records ih =>
    intro results hlength
    rw [List.map_cons, List.map_cons]
    cases hproject : binding.project repr record with
    | error miss =>
      rw [unsettled_cons_some (settled_eq_some hproject)] at hlength
      rw [settled_eq_some hproject, spliceVerdicts, ih hlength]
      rfl
    | ok slim =>
      rw [unsettled_cons_none (settled_eq_none hproject)] at hlength
      cases results with
      | nil => cases hlength
      | cons verdict results =>
        rw [settled_eq_none hproject, spliceVerdicts, ih (by simpa using hlength)]
        rfl

/-- The place that a record's projection has in what is forwarded. -/
def StashDedupBinding.place (repr : Json → String) (binding : StashDedupBinding)
    (records : List Json) (i : ℕ) : ℕ := (binding.forwardRecords repr (records.take i)).length

/-- As many verdicts as records: a record that lacks something has the one that says so, and any
    other the checker's on its projection. -/
structure Aligned (repr : Json → String) (binding : StashDedupBinding) (records : List Json)
    (results out : List (Option DedupVerdict)) : Prop where
  length : out.length = records.length
  lacking : ∀ (i : ℕ) record, records[i]? = some record → binding.Lacks record →
    ∃ miss, binding.project repr record = .error miss ∧ miss.matchKind = "invalid_record" ∧
      out[i]? = some (some miss)
  checked : ∀ (i : ℕ) record, records[i]? = some record → ¬ binding.Lacks record →
    ∃ slim, binding.project repr record = .ok slim ∧
      (binding.forwardRecords repr records)[binding.place repr records i]? = some slim ∧
      out[i]? = results[binding.place repr records i]?

theorem aligned_splice {records : List Json} {results : List (Option DedupVerdict)}
    (hlength : results.length = (binding.forwardRecords repr records).length) :
    Aligned repr binding records results (splice (records.map (binding.settled repr)) results) := by
  have hcount (items : List Json) : (unsettled (binding.settled repr) items).length =
      (binding.forwardRecords repr items).length := (forwardRecords_forall₂ items).length_eq
  rw [← hcount] at hlength
  refine ⟨length_splice hlength, fun i record hi hlacks => ?_, fun i record hi hcomplete => ?_⟩
  · cases hproject : binding.project repr record with
    | ok slim => exact absurd hlacks (project_ok_iff.mp ⟨slim, hproject⟩)
    | error miss =>
      refine ⟨miss, rfl, matchKind_of_project hproject, ?_⟩
      rw [getElem?_splice hlength hi, settled_eq_some hproject, Option.some_or]
  · obtain ⟨slim, hproject⟩ := project_ok_iff.mpr hcomplete
    have hplace := getElem?_unsettled (settled_eq_none hproject) hi
    rw [hcount] at hplace
    obtain ⟨forwarded, hforwarded, hsame⟩ := exists_counterpart (forwardRecords_forall₂ records) hplace
    obtain rfl := Except.ok.inj (hproject.symm.trans hsame)
    refine ⟨slim, hproject, hforwarded, ?_⟩
    rw [getElem?_splice hlength hi, settled_eq_none hproject, Option.none_or, hcount]
    rfl

/-- A checker that answers position by position is asked about the records that lack nothing, and
    its verdicts are put back in their places. -/
theorem buildCallContextChecker_aligned (h : binding.checker.Positional) (records : List Json) :
    ∃ results out, binding.forwardResults repr (binding.forwardRecords repr records) = .ok results ∧
      buildCallContextChecker repr binding records = .ok out ∧
      Aligned repr binding records results out := by
  obtain ⟨results, hresults, hlength⟩ : ∃ results,
      binding.forwardResults repr (binding.forwardRecords repr records) = .ok results ∧
        results.length = (binding.forwardRecords repr records).length := by
    unfold forwardResults
    split
    case isTrue hnil => exact ⟨[], rfl, by rw [hnil]; rfl⟩
    case isFalse =>
      obtain ⟨results, hanswer, hlength⟩ := h (binding.forwardRecords repr records)
      exact ⟨results, by simp [hanswer, hlength], hlength⟩
  refine ⟨results, _, hresults, ?_, aligned_splice hlength⟩
  rw [buildCallContextChecker, hresults]
  exact spliceVerdicts_eq (hlength.trans (forwardRecords_forall₂ records).length_eq.symm)

end LunaCore.Dedup
