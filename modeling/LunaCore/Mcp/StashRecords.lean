import LunaCore.Dedup.CallContextChecker
import LunaCore.Flow.NodeConfig
import LunaCore.Services.ScratchpadStore

/-! The `stash_records` tool: which records of a call are stashed, and what is said of the others.

    records ──dedup──▶ survivors ──ids──▶ targets ──new?──▶ stash_batch ──▶ ids
                 │                                    │
                 ▼                                    ▼
             duplicates                       already_stashed

    Three lists shrink side by side: the records, the ids that came with them and the ids they get.
    Each record has one fate, and the response tells the fates in three lists. -/

namespace LunaCore.Mcp.StashRecords
open LunaCore.Schemes LunaCore.Values LunaCore.Dedup LunaCore.Services.ScratchpadStore
open LunaCore.Services.Scratchpad (splitTargets)
open LunaCore.Flow (getOr carryPrimitiveTypes)

/-- A row of a record schema. -/
structure RecordField where
  name : String
  type : String
  nullable : Bool

/-- What a record is rejected for. -/
structure Issue where
  recordIndex : ℕ
  field : Option String
  reason : String
  deriving DecidableEq

/-- What the runtime hands to the handler. -/
structure CallContext where
  /-- `redis` and `flow_run_id` are there. -/
  inRun : Bool
  recordSchema : List RecordField
  dedupChecker : Option (List Json → Except Raised (List (Option DedupVerdict)))

/-- An entry of `duplicates`. -/
structure Duplicate where
  recordIndex : ℕ
  matchKind : String
  reason : String
  existingId : Option String
  deriving DecidableEq

/-- An entry of `already_stashed`. -/
structure AlreadyStashed where
  id : String
  reason : String
  deriving DecidableEq

/-- `stashed` is how many ids there are. -/
structure StashResponse where
  collection : String
  ids : List String
  alreadyStashed : List AlreadyStashed
  duplicates : List Duplicate
  deriving DecidableEq

inductive Reply where
  | error (message : String) (details : Option (List Issue))
  | response (r : StashResponse)
  deriving DecidableEq

variable (hashRecord : Dict → String) (repr : Json → String) (ttl : ℕ+)

/-! ### The arguments -/

/-- `None if r is None else str(r)`. -/
def recordId : Json → Option String
  | .null => none
  | .str id => some id
  | value => some (repr value)

/-- `record_ids`; an empty list is as good as none. -/
def recordIdsOf : Option Json → Except String RecordIds
  | none | some .null | some (.arr []) => .ok none
  | some (.arr raw) => .ok (some (raw.map (recordId repr)))
  | some _ => .error "record_ids must be an array if provided"

/-- The arguments of a call. A number does not tell whether it came as a float, as `1.0` does, so
    `floats` does: of a record that is a number, and of a field of a record. -/
structure Args where
  dict : Dict
  floats : ℕ → Option String → Bool

/-- Arguments without such a number. -/
def Args.of (dict : Dict) : Args := ⟨dict, fun _ _ => false⟩

structure Request where
  collection : String
  records : List Json
  recordIds : RecordIds

/-- What the handler reads of its arguments. -/
def requestOf (args : Dict) : Except String Request := match args.get "collection" with
  | some (.str collection) =>
    if collection = "" then .error "collection must be a non-empty string"
    else match getOr args "records" (.arr []) with
      | .arr records => (recordIdsOf repr (args.get "record_ids")).map fun recordIds =>
        ⟨collection, records, recordIds⟩
      | _ => .error "records must be an array"
  | _ => .error "collection must be a non-empty string"

/-- `type(value).__name__`, of a value that may have come as a float. -/
def typeNameOf (float : Bool) : Json → String
  | .num q => if float = false ∧ q.den = 1 then "int" else "float"
  | value => typeName value

/-- `_value_matches_type`; an integer came as one. -/
def valueMatchesType (float : Bool) : Json → String → Bool
  | .str _, "string" | .bool _, "boolean" | .num _, "number" | .obj _, "object" | .arr _, "array" =>
    true
  | .num q, "integer" => float = false ∧ q.den = 1
  | _, expected => expected ∉ carryPrimitiveTypes

/-- The number 1 is an integer, and 1.0 is a number. -/
example : (valueMatchesType false (.num 1) "integer", valueMatchesType true (.num 1) "integer",
    valueMatchesType true (.num 1) "number") = (true, false, true) := by decide

section
variable (floats : ℕ → Option String → Bool)

/-- What a record is rejected for by a field. -/
def fieldIssue (index : ℕ) (record : Dict) (field : RecordField) : Option Issue :=
  match record.get field.name with
  | none => some ⟨index, some field.name, "required field missing"⟩
  | some .null =>
    if field.nullable then none
    else some ⟨index, some field.name, "field is null but schema declares it non-nullable"⟩
  | some value =>
    if valueMatchesType (floats index field.name) value field.type then none
    else some ⟨index, some field.name,
      "expected " ++ field.type ++ ", got " ++ typeNameOf (floats index field.name) value⟩

/-- `_validate_records_against_schema`. -/
def validateRecords (schema : List RecordField) (records : List Json) : List Issue :=
  records.zipIdx.flatMap fun (record, index) => match record with
    | .obj fields => schema.filterMap (fieldIssue floats index fields)
    | record => [⟨index, none,
      "record must be an object, got " ++ typeNameOf (floats index none) record⟩]

/-- The validation, where the node declares a schema. -/
def schemaIssues (schema : List RecordField) (records : List Json) : List Issue :=
  if schema.isEmpty then [] else validateRecords floats schema records

end

/-! ### The three filters -/

/-- The records that are no duplicates, with the ids they came with. -/
structure Survivors where
  records : List Json
  ids : RecordIds
  duplicates : List Duplicate

/-- What the loop over the verdicts collects. -/
structure Sifted where
  survivors : List Json
  survivorIds : List (Option String)
  duplicates : List Duplicate

def duplicateEntry (index : ℕ) (verdict : DedupVerdict) : Duplicate :=
  ⟨index, verdict.matchKind, verdict.reason, verdict.existingId⟩

/-- `record_ids[index] if record_ids is not None else None`, where the index may be out of range. -/
def survivorId (recordIds : RecordIds) (index : ℕ) : Except Raised (Option String) :=
  match recordIds with
  | none => .ok none
  | some ids => match ids[index]? with
    | some id => .ok id
    | none => .error .indexError

/-- The loop over the verdicts, from an index on. -/
def sift (recordIds : RecordIds) : ℕ → List (Json × Option DedupVerdict) → Except Raised Sifted
  | _, [] => .ok ⟨[], [], []⟩
  | index, (record, none) :: rest => match survivorId recordIds index with
    | .error e => .error e
    | .ok id => (sift recordIds (index + 1) rest).map fun u =>
      { u with survivors := record :: u.survivors, survivorIds := id :: u.survivorIds }
  | index, (_, some verdict) :: rest => (sift recordIds (index + 1) rest).map fun u =>
    { u with duplicates := duplicateEntry index verdict :: u.duplicates }

/-- The dedup, where there is one and something to check. -/
def survivorsOf (checker : Option (List Json → Except Raised (List (Option DedupVerdict))))
    (records : List Json) (recordIds : RecordIds) : Except Raised Survivors :=
  match checker, records with
  | none, _ | some _, [] => .ok ⟨records, recordIds, []⟩
  | some checker, records => match checker records with
    | .error e => .error e
    | .ok verdicts =>
      if verdicts.length = records.length then
        (sift recordIds 0 (records.zip verdicts)).map fun u =>
          ⟨u.survivors, recordIds.map fun _ => u.survivorIds, u.duplicates⟩
      else .error (.runtimeError ("stash_dedup_checker returned " ++ toString verdicts.length ++
        " verdicts for " ++ toString records.length ++ " records"))

/-- What the loop over the targets collects. -/
structure Fresh where
  newRecords : List Json
  newRecordIds : List (Option String)
  alreadyStashed : List AlreadyStashed

def alreadyEntry (id : String) : AlreadyStashed :=
  ⟨id, "id already present in this collection — this call had no effect, no need to retry"⟩

/-- The loop over the targets, from an index on. -/
def keepNew (existing : Finset String) (ids : RecordIds) :
    ℕ → List String → List (Json × String) → Fresh
  | _, _, [] => ⟨[], [], []⟩
  | index, seen, (record, target) :: rest =>
    if target ∈ existing ∨ target ∈ seen then
      let u := keepNew existing ids (index + 1) seen rest
      { u with alreadyStashed := alreadyEntry target :: u.alreadyStashed }
    else
      let u := keepNew existing ids (index + 1) (target :: seen) rest
      { u with
        newRecords := record :: u.newRecords
        newRecordIds := explicitAt ids index :: u.newRecordIds }

/-- The handler from the store on. -/
def stashSurvivors (s : Pad) (collection : String) (v : Survivors) : Reply × Pad :=
  match computeTargetIds hashRecord v.records v.ids, listIds repr s collection with
  | .error message, _ => (.error message none, s)
  | .ok _, .error message => (.error message none, s)
  | .ok targets, .ok existing =>
    let u := keepNew existing v.ids 0 [] (v.records.zip targets)
    match stashBatch hashRecord repr ttl s collection u.newRecords
        (v.ids.map fun _ => u.newRecordIds) with
    | .error message => (.error message none, s)
    | .ok (ids, t) => (.response ⟨collection, ids, u.alreadyStashed, v.duplicates⟩, t)

/-- `handler`. -/
def handler (ctx : CallContext) (args : Args) (s : Pad) : Except Raised (Reply × Pad) :=
  if ctx.inRun = false then .error (.runtimeError
    "stash_records handler invoked without redis/flow_run_id in call_context")
  else match requestOf repr args.dict with
    | .error message => .ok (.error message none, s)
    | .ok q =>
      if schemaIssues args.floats ctx.recordSchema q.records = [] then
        (survivorsOf ctx.dedupChecker q.records q.recordIds).map
          (stashSurvivors hashRecord repr ttl s q.collection)
      else .ok (.error "records failed schema validation"
        (some (schemaIssues args.floats ctx.recordSchema q.records)), s)

/-! ### What becomes of a record -/

inductive Fate where
  | stashed (id : String)
  | already (id : String)
  | duplicate (entry : Duplicate)
  deriving DecidableEq

def Fate.stashedId : Fate → Option String
  | .stashed id => some id
  | _ => none

def Fate.alreadyId : Fate → Option String
  | .already id => some id
  | _ => none

def Fate.entry : Fate → Option Duplicate
  | .duplicate entry => some entry
  | _ => none

variable {hashRecord : Dict → String} {repr : Json → String} {ttl : ℕ+}

/-! ### The duplicates -/

/-- A record with its verdict and its index. -/
abbrev Item := (Json × Option DedupVerdict) × ℕ

/-- The fate of a duplicate. -/
def Item.settled (item : Item) : Option Fate :=
  item.1.2.map fun verdict => .duplicate (duplicateEntry item.2 verdict)

/-- A record with the id in its own place. -/
def Item.row (recordIds : RecordIds) (item : Item) : Json × Option String :=
  (item.1.1, explicitAt recordIds item.2)

theorem explicitAt_of_survivorId {recordIds : RecordIds} {index : ℕ} {id : Option String}
    (h : survivorId recordIds index = .ok id) : explicitAt recordIds index = id := by
  unfold survivorId at h
  cases recordIds with
  | none => exact Except.ok.inj h
  | some ids =>
    simp only at h
    split at h
    case h_1 other hother =>
      obtain rfl := Except.ok.inj h
      simp [explicitAt, hother]
    case h_2 => cases h

/-- The survivors are the records without a verdict, each with its own id. -/
structure Sifts (recordIds : RecordIds) (items : List Item) (u : Sifted) : Prop where
  length : u.survivorIds.length = u.survivors.length
  rows : u.survivors.zip u.survivorIds =
    (unsettled Item.settled items).map (Item.row recordIds)
  none : recordIds = none → ∀ id ∈ u.survivorIds, id = none
  duplicates : u.duplicates = items.filterMap fun item => item.settled.bind Fate.entry

theorem sifts : ∀ {rows : List (Json × Option DedupVerdict)} {recordIds : RecordIds} {index : ℕ}
    {u : Sifted}, sift recordIds index rows = .ok u → Sifts recordIds (rows.zipIdx index) u := by
  intro rows
  induction rows with
  | nil =>
    intro recordIds index u h
    obtain rfl := Except.ok.inj h
    exact ⟨rfl, rfl, fun _ _ h => (List.not_mem_nil h).elim, rfl⟩
  | cons row rows ih =>
    intro recordIds index u h
    obtain ⟨record, verdict⟩ := row
    rw [List.zipIdx_cons]
    cases verdict with
    | none =>
      rw [sift] at h
      split at h
      case h_1 => cases h
      case h_2 id hid =>
        obtain ⟨u', hrest, rfl⟩ := map_eq_ok_iff.mp h
        have hu := ih hrest
        refine ⟨congrArg (· + 1) hu.length, ?_, fun hnone other hother => ?_, ?_⟩
        · rw [unsettled_cons_none rfl, List.zip_cons_cons, hu.rows, List.map_cons, Item.row,
            explicitAt_of_survivorId hid]
        · rcases List.mem_cons.mp hother with rfl | hother
          · rw [hnone] at hid
            exact (Except.ok.inj hid).symm
          · exact hu.none hnone other hother
        · rw [List.filterMap_cons_none rfl]
          exact hu.duplicates
    | some verdict =>
      obtain ⟨u', hrest, rfl⟩ := map_eq_ok_iff.mp h
      have hu := ih hrest
      have hsettled : Item.settled ((record, some verdict), index) =
          some (.duplicate (duplicateEntry index verdict)) := rfl
      refine ⟨hu.length, ?_, hu.none, ?_⟩
      · rw [unsettled_cons_some hsettled]
        exact hu.rows
      · rw [List.filterMap_cons, hsettled]
        exact congrArg (duplicateEntry index verdict :: ·) hu.duplicates

/-- Without a verdict on any of them the survivors are the records. -/
theorem unsettled_unchecked (recordIds : RecordIds) : ∀ (records : List Json) (index : ℕ),
    rows recordIds index records =
      (unsettled Item.settled ((records.zip (List.replicate records.length none)).zipIdx index)).map
        (Item.row recordIds) ∧
      [] = ((records.zip (List.replicate records.length none)).zipIdx index).filterMap fun item =>
        (Item.settled item).bind Fate.entry := by
  intro records
  induction records with
  | nil => exact fun _ => ⟨rfl, rfl⟩
  | cons record records ih =>
    intro index
    obtain ⟨hrows, hduplicates⟩ := ih (index + 1)
    have hsettled : Item.settled ((record, none), index) = none := rfl
    rw [List.length_cons, List.replicate_succ, List.zip_cons_cons, List.zipIdx_cons]
    refine ⟨?_, ?_⟩
    · rw [unsettled_cons_none hsettled, rows_cons, hrows]
      rfl
    · rw [List.filterMap_cons, hsettled]
      exact hduplicates

/-- The verdicts are on the records, and what they leave goes on. -/
theorem exists_verdicts {checker : Option (List Json → Except Raised (List (Option DedupVerdict)))}
    {records : List Json} {recordIds : RecordIds} {v : Survivors}
    (h : survivorsOf checker records recordIds = .ok v) :
    ∃ verdicts : List (Option DedupVerdict), verdicts.length = records.length ∧
      rows v.ids 0 v.records =
        (unsettled Item.settled (records.zip verdicts).zipIdx).map (Item.row recordIds) ∧
      v.duplicates =
        (records.zip verdicts).zipIdx.filterMap fun item =>
          (Item.settled item).bind Fate.entry := by
  unfold survivorsOf at h
  split at h
  case h_1 =>
    obtain rfl := Except.ok.inj h
    exact ⟨_, List.length_replicate, unsettled_unchecked recordIds records 0⟩
  case h_2 =>
    obtain rfl := Except.ok.inj h
    exact ⟨[], rfl, rfl, rfl⟩
  case h_3 checker _ _ =>
    split at h
    case h_1 => cases h
    case h_2 verdicts _ =>
      split at h
      case isFalse => cases h
      case isTrue hlength =>
        obtain ⟨u, hsift, rfl⟩ := map_eq_ok_iff.mp h
        have hu := sifts hsift
        refine ⟨verdicts, hlength, ?_, hu.duplicates⟩
        rw [← hu.rows]
        exact rows_collected recordIds hu.length hu.none

/-! ### The new ones -/

section
variable {existing : Finset String} {ids : RecordIds}

/-- The new ids are not in the collection, and none comes twice. -/
theorem splitTargets_new : ∀ {targets : List (String × Json)} {seen : List String},
    ((splitTargets existing seen targets).1.map Prod.fst).Nodup ∧
      ∀ id ∈ (splitTargets existing seen targets).1.map Prod.fst, id ∉ existing ∧ id ∉ seen := by
  intro targets
  induction targets with
  | nil => exact ⟨List.nodup_nil, fun _ h => (List.not_mem_nil h).elim⟩
  | cons target targets ih =>
    intro seen
    obtain ⟨id, record⟩ := target
    rw [splitTargets]
    split
    case isTrue => exact ih
    case isFalse hnew =>
      obtain ⟨hnodup, hfresh⟩ := @ih (id :: seen)
      obtain ⟨hexisting, hseen⟩ := not_or.mp hnew
      refine ⟨List.nodup_cons.mpr ⟨fun hmem => ?_, hnodup⟩, fun other hother => ?_⟩
      · exact (hfresh id hmem).2 (List.mem_cons_self ..)
      · rcases List.mem_cons.mp hother with rfl | hother
        · exact ⟨hexisting, hseen⟩
        · exact (hfresh other hother).imp_right List.not_mem_of_not_mem_cons

theorem splitTargets_nothing : ∀ {targets : List (String × Json)} {seen : List String},
    (∀ target ∈ targets, target.1 ∈ existing) → (splitTargets existing seen targets).1 = [] := by
  intro targets
  induction targets with
  | nil => exact fun _ => rfl
  | cons target targets ih =>
    intro seen hall
    rw [splitTargets, if_pos (.inl (hall target (List.mem_cons_self ..)))]
    exact ih fun other hother => hall other (List.mem_cons_of_mem _ hother)

/-- The fates of the survivors, by their targets. -/
def targetFates (existing : Finset String) : List String → List (String × Json) → List Fate
  | _, [] => []
  | seen, (id, _) :: rest =>
    if id ∈ existing ∨ id ∈ seen then .already id :: targetFates existing seen rest
    else .stashed id :: targetFates existing (id :: seen) rest

/-- The fates are what the split of the targets says. -/
theorem targetFates_split : ∀ {targets : List (String × Json)} {seen : List String},
    (splitTargets existing seen targets).1.map Prod.fst =
        (targetFates existing seen targets).filterMap Fate.stashedId ∧
      (splitTargets existing seen targets).2 =
        (targetFates existing seen targets).filterMap Fate.alreadyId := by
  intro targets
  induction targets with
  | nil => exact ⟨rfl, rfl⟩
  | cons target targets ih =>
    intro seen
    obtain ⟨id, record⟩ := target
    rw [splitTargets, targetFates]
    split
    case isTrue => exact ⟨ih.1, congrArg (id :: ·) ih.2⟩
    case isFalse => exact ⟨congrArg (id :: ·) ih.1, ih.2⟩

/-- A survivor is in the batch, or its id is in the collection, has been seen or is in the batch. -/
def Settles (existing : Finset String) (seen : List String) (batch : List (String × Json))
    (target : String × Json) (fate : Fate) : Prop :=
  (fate = .stashed target.1 ∧ target ∈ batch) ∨
    (fate = .already target.1 ∧
      (target.1 ∈ existing ∨ target.1 ∈ seen ∨ target.1 ∈ batch.map Prod.fst))

theorem targetFates_forall₂ : ∀ {targets : List (String × Json)} {seen : List String},
    List.Forall₂ (Settles existing seen (splitTargets existing seen targets).1) targets
      (targetFates existing seen targets) := by
  intro targets
  induction targets with
  | nil => exact fun {_} => .nil
  | cons target targets ih =>
    intro seen
    obtain ⟨id, record⟩ := target
    rw [splitTargets, targetFates]
    split
    case isTrue hthere => exact .cons (.inr ⟨rfl, hthere.imp_right .inl⟩) ih
    case isFalse hnew =>
      refine .cons (.inl ⟨rfl, List.mem_cons_self ..⟩) (ih.imp fun target fate h => ?_)
      rcases h with ⟨rfl, hmem⟩ | ⟨rfl, hthere⟩
      · exact .inl ⟨rfl, List.mem_cons_of_mem _ hmem⟩
      · refine .inr ⟨rfl, ?_⟩
        rcases hthere with h | h | h
        · exact .inl h
        · rcases List.mem_cons.mp h with rfl | h
          · exact .inr (.inr (List.mem_cons_self ..))
          · exact .inr (.inl h)
        · exact .inr (.inr (List.mem_cons_of_mem _ h))

/-- Every target is in the collection once the batch is. -/
theorem splitTargets_covers {targets : List (String × Json)} {target : String × Json}
    (h : target ∈ targets) : target.1 ∈ existing ∨
      target.1 ∈ (splitTargets existing [] targets).1.map Prod.fst := by
  obtain ⟨i, hi⟩ := List.mem_iff_getElem?.mp h
  have hfates : List.Forall₂ (Settles existing [] (splitTargets existing [] targets).1) targets
      (targetFates existing [] targets) := targetFates_forall₂
  obtain ⟨fate, -, ⟨-, hmem⟩ | ⟨-, hthere⟩⟩ := exists_counterpart hfates hi
  · exact .inr (List.mem_map_of_mem hmem)
  · exact hthere.imp_right fun h => h.resolve_left List.not_mem_nil

theorem entry_of_targetFates : ∀ {targets : List (String × Json)} {seen : List String} {fate : Fate},
    fate ∈ targetFates existing seen targets → fate.entry = none := by
  intro targets
  induction targets with
  | nil => exact fun h => (List.not_mem_nil h).elim
  | cons target targets ih =>
    intro seen fate h
    obtain ⟨id, record⟩ := target
    rw [targetFates] at h
    split at h
    · rcases List.mem_cons.mp h with rfl | h
      · rfl
      · exact ih h
    · rcases List.mem_cons.mp h with rfl | h
      · rfl
      · exact ih h

/-- What the loop over the targets collects is the batch of the split, with the ids that it came
    with. -/
structure Keeps (hashRecord : Dict → String) (ids : RecordIds)
    (split : List (String × Json) × List String) (u : Fresh) : Prop where
  records : u.newRecords = split.1.map Prod.snd
  length : u.newRecordIds.length = u.newRecords.length
  none : ids = none → ∀ id ∈ u.newRecordIds, id = none
  already : u.alreadyStashed = split.2.map alreadyEntry
  targets : List.Forall₂ (HasTarget hashRecord) (u.newRecords.zip u.newRecordIds)
    (split.1.map Prod.fst)

theorem keeps : ∀ {records : List Json} {targets : List String} {index : ℕ} {seen : List String},
    List.Forall₂ (HasTarget hashRecord) (rows ids index records) targets →
      Keeps hashRecord ids (splitTargets existing seen (targets.zip records))
        (keepNew existing ids index seen (records.zip targets)) := by
  intro records
  induction records with
  | nil =>
    intro targets index seen h
    obtain rfl := List.forall₂_nil_left_iff.mp h
    exact ⟨rfl, rfl, fun _ _ h => (List.not_mem_nil h).elim, rfl, .nil⟩
  | cons record records ih =>
    intro targets index seen h
    rw [rows_cons] at h
    obtain ⟨target, targets, htarget, hrest, rfl⟩ := List.forall₂_cons_left_iff.mp h
    rw [List.zip_cons_cons, List.zip_cons_cons, splitTargets, keepNew]
    split
    case isTrue =>
      have hu := @ih targets (index + 1) seen hrest
      exact ⟨hu.records, hu.length, hu.none, congrArg (alreadyEntry target :: ·) hu.already,
        hu.targets⟩
    case isFalse =>
      have hu := @ih targets (index + 1) (target :: seen) hrest
      refine ⟨congrArg (record :: ·) hu.records, congrArg (· + 1) hu.length, fun hnone id hid => ?_,
        hu.already, .cons htarget hu.targets⟩
      rcases List.mem_cons.mp hid with rfl | hid
      · rw [hnone]
        rfl
      · exact hu.none hnone id hid

end

/-- What the loop has kept is stashed under the ids that were looked up. -/
theorem stashBatch_keeps {s : Pad} {collection : String} {ids : RecordIds}
    {split : List (String × Json) × List String} {u : Fresh}
    (hname : checkCollectionName repr collection = .ok ())
    (h : Keeps hashRecord ids split u) :
    stashBatch hashRecord repr ttl s collection u.newRecords (ids.map fun _ => u.newRecordIds) =
      .ok (split.1.map Prod.fst, batched ttl s collection split.1) := by
  have hlength : checkLength u.newRecords (ids.map fun _ => u.newRecordIds) = .ok () := by
    cases ids with
    | none => rfl
    | some ids => exact if_pos h.length
  have htargets : targetIds hashRecord (ids.map fun _ => u.newRecordIds) 0 u.newRecords =
      .ok (split.1.map Prod.fst) := by
    rw [targetIds_ok_iff, rows_collected ids h.length h.none]
    exact h.targets
  have hbatch : (split.1.map Prod.fst).zip u.newRecords = split.1 := by
    rw [h.records]
    exact (List.zip_of_prod rfl rfl).symm
  have hempty : u.newRecords = [] ↔ split.1 = [] := by rw [h.records, List.map_eq_nil_iff]
  simp only [stashBatch, hname, hlength, htargets, hbatch, hempty, batched]
  split
  case isTrue hnil => rw [hnil]; rfl
  case isFalse => rfl

theorem hasTarget_of_computed {records : List Json} {ids : RecordIds} {targets : List String}
    (h : computeTargetIds hashRecord records ids = .ok targets) :
    List.Forall₂ (HasTarget hashRecord) (rows ids 0 records) targets := by
  rw [computeTargetIds] at h
  split at h
  case h_1 => cases h
  case h_2 => exact targetIds_ok_iff.mp h

/-- The survivors' targets are split, and what is new is the batch. -/
theorem stashSurvivors_eq {s : Pad} {collection : String} {v : Survivors} {targets : List String}
    {existing : Finset String} (htargets : computeTargetIds hashRecord v.records v.ids = .ok targets)
    (hexisting : listIds repr s collection = .ok existing) :
    stashSurvivors hashRecord repr ttl s collection v =
      (.response ⟨collection,
          (splitTargets existing [] (targets.zip v.records)).1.map Prod.fst,
          (splitTargets existing [] (targets.zip v.records)).2.map alreadyEntry, v.duplicates⟩,
        batched ttl s collection (splitTargets existing [] (targets.zip v.records)).1) := by
  have hname := (listIds_ok hexisting).1
  have hrows := hasTarget_of_computed htargets
  have hkeeps : Keeps hashRecord v.ids (splitTargets existing [] (targets.zip v.records)) _ :=
    keeps hrows
  simp only [stashSurvivors, htargets, hexisting]
  rw [stashBatch_keeps hname hkeeps, hkeeps.already]

/-- What a call that is answered has come to. -/
structure Accounted (hashRecord : Dict → String) (q : Request) (s t : Pad) (r : StashResponse)
    (fates : List Fate) : Prop where
  /-- Each record has one fate, and the response has them in its lists. -/
  length : fates.length = q.records.length
  ids : r.ids = fates.filterMap Fate.stashedId
  already : r.alreadyStashed = (fates.filterMap Fate.alreadyId).map alreadyEntry
  duplicates : r.duplicates = fates.filterMap Fate.entry
  /-- A duplicate has its own index, any other record its own id. -/
  index : ∀ (i : ℕ) entry, fates[i]? = some (.duplicate entry) → entry.recordIndex = i
  target : ∀ (i : ℕ) id, fates[i]? = some (.stashed id) ∨ fates[i]? = some (.already id) →
    ∃ fields, q.records[i]? = some (.obj fields) ∧
      id = targetId hashRecord (explicitAt q.recordIds i) fields
  /-- The ids are distinct and were not in the collection. -/
  nodup : r.ids.Nodup
  fresh : ∀ id ∈ r.ids, id ∉ s.listIds q.collection
  /-- The collection is the old one and these ids with these payloads. -/
  listed : ∀ c id, id ∈ t.listIds c ↔ id ∈ s.listIds c ∨ (c = q.collection ∧ id ∈ r.ids)
  payload : ∀ (i : ℕ) id, fates[i]? = some (.stashed id) →
    t.get q.collection id = q.records[i]?
  kept : ∀ c id, (c = q.collection → id ∉ r.ids) → t.get c id = s.get c id
  /-- What is said to be in the collection is. -/
  present : ∀ (i : ℕ) id, fates[i]? = some (.already id) → id ∈ t.listIds q.collection

/-! ### All of it -/

/-- A survivor is an object, and its target is in the batch or was there before. -/
def Lands (hashRecord : Dict → String) (recordIds : RecordIds) (existing : Finset String)
    (batch : List (String × Json)) (item : Item) (fate : Fate) : Prop :=
  ∃ fields, item.1.1 = .obj fields ∧ Settles existing [] batch
    (targetId hashRecord (explicitAt recordIds item.2) fields, item.1.1) fate

/-- The records with their verdicts and indexes. -/
abbrev itemsOf (records : List Json) (verdicts : List (Option DedupVerdict)) : List Item :=
  (records.zip verdicts).zipIdx

theorem itemsOf_at {records : List Json} {verdicts : List (Option DedupVerdict)} {i : ℕ}
    {item : Item} (h : (itemsOf records verdicts)[i]? = some item) :
    item.2 = i ∧ records[i]? = some item.1.1 := by
  rw [List.getElem?_zipIdx, Nat.zero_add] at h
  obtain ⟨pair, hpair, rfl⟩ := Option.map_eq_some_iff.mp h
  exact ⟨rfl, (List.getElem?_zip_eq_some.mp hpair).1⟩

theorem survivors_land {recordIds : RecordIds} {existing : Finset String} {items : List Item}
    {v : Survivors} {targets : List String}
    (hrows : rows v.ids 0 v.records = (unsettled Item.settled items).map (Item.row recordIds))
    (htargets : List.Forall₂ (HasTarget hashRecord) (rows v.ids 0 v.records) targets) :
    List.Forall₂ (Lands hashRecord recordIds existing
        (splitTargets existing [] (targets.zip v.records)).1) (unsettled Item.settled items)
      (targetFates existing [] (targets.zip v.records)) := by
  have hrecords : v.records = (unsettled Item.settled items).map fun item => item.1.1 := by
    rw [← rows_records v.ids 0 v.records, hrows, List.map_map]
    rfl
  have hfates : List.Forall₂ (Settles existing []
      (splitTargets existing [] (targets.zip v.records)).1) (targets.zip v.records)
      (targetFates existing [] (targets.zip v.records)) := targetFates_forall₂
  generalize (splitTargets existing [] (targets.zip v.records)).1 = batch at hfates ⊢
  generalize targetFates existing [] (targets.zip v.records) = fates at hfates ⊢
  rw [hrows, List.forall₂_map_left_iff] at htargets
  rw [hrecords] at hfates
  refine (forall₂_zip htargets hfates).imp ?_
  rintro item fate ⟨_, ⟨fields, hfields, rfl⟩, hfate⟩
  exact ⟨fields, hfields, hfate⟩

/-- A call that gets through its checks comes to the dedup. -/
theorem handler_eq {ctx : CallContext} {args : Args} {q : Request} (hinRun : ctx.inRun ≠ false)
    (hq : requestOf repr args.dict = .ok q)
    (hschema : schemaIssues args.floats ctx.recordSchema q.records = []) (s : Pad) :
    handler hashRecord repr ttl ctx args s = (survivorsOf ctx.dedupChecker q.records q.recordIds).map
      (stashSurvivors hashRecord repr ttl s q.collection) := by
  rw [handler, if_neg hinRun, hq]
  exact if_pos hschema

/-- A call that is answered got through all of its checks, and does again. -/
theorem exists_request {ctx : CallContext} {args : Args} {s t : Pad} {r : StashResponse}
    (h : handler hashRecord repr ttl ctx args s = .ok (.response r, t)) :
    ∃ q v targets, requestOf repr args.dict = .ok q ∧
      survivorsOf ctx.dedupChecker q.records q.recordIds = .ok v ∧
      computeTargetIds hashRecord v.records v.ids = .ok targets ∧
      ∀ u, handler hashRecord repr ttl ctx args u =
        .ok (.response ⟨q.collection,
            (splitTargets (u.listIds q.collection) [] (targets.zip v.records)).1.map Prod.fst,
            (splitTargets (u.listIds q.collection) [] (targets.zip v.records)).2.map alreadyEntry,
            v.duplicates⟩,
          batched ttl u q.collection
            (splitTargets (u.listIds q.collection) [] (targets.zip v.records)).1) := by
  have hinRun : ctx.inRun ≠ false := by
    intro hout
    rw [handler, if_pos hout] at h
    cases h
  cases hq : requestOf repr args.dict with
  | error message => simp [handler, hinRun, hq] at h
  | ok q =>
    by_cases hschema : schemaIssues args.floats ctx.recordSchema q.records = []
    case neg => simp [handler, hinRun, hq, hschema] at h
    case pos =>
      rw [handler_eq hinRun hq hschema] at h
      obtain ⟨v, hv, hstash⟩ := map_eq_ok_iff.mp h
      cases htargets : computeTargetIds hashRecord v.records v.ids with
      | error message => simp [stashSurvivors, htargets] at hstash
      | ok targets =>
        cases hexisting : listIds repr s q.collection with
        | error message => simp [stashSurvivors, htargets, hexisting] at hstash
        | ok existing =>
          refine ⟨q, v, targets, rfl, hv, htargets, fun u => ?_⟩
          rw [handler_eq hinRun hq hschema, map_eq_ok_iff]
          exact ⟨v, hv, stashSurvivors_eq htargets ((listIds_ok hexisting).2 u)⟩

/-- A settled item is a duplicate with its own index. -/
theorem fate_of_settled {item : Item} {fate : Fate} (h : item.settled = some fate) :
    ∃ entry, fate = .duplicate entry ∧ entry.recordIndex = item.2 := by
  obtain ⟨verdict, -, rfl⟩ := Option.map_eq_some_iff.mp h
  exact ⟨_, rfl, rfl⟩

/-- The record in place `i` is a duplicate of that index, or a survivor that lands. -/
theorem fate_at {q : Request} {verdicts : List (Option DedupVerdict)} {existing : Finset String}
    {batch : List (String × Json)} {fill : List Fate}
    (hland : List.Forall₂ (Lands hashRecord q.recordIds existing batch)
      (unsettled Item.settled (itemsOf q.records verdicts)) fill) {i : ℕ} {fate : Fate}
    (h : (splice ((itemsOf q.records verdicts).map Item.settled) fill)[i]? = some fate) :
    (∃ entry, fate = .duplicate entry ∧ entry.recordIndex = i) ∨
      ∃ fields, q.records[i]? = some (.obj fields) ∧ Settles existing [] batch
        (targetId hashRecord (explicitAt q.recordIds i) fields, .obj fields) fate := by
  obtain ⟨item, hitem, hfate⟩ := exists_counterpart (forall₂_splice hland).flip h
  obtain ⟨rfl, hrecord⟩ := itemsOf_at hitem
  rcases hfate with hsettled | ⟨-, fields, hfields, hsettles⟩
  · exact .inl (fate_of_settled hsettled)
  · rw [hfields] at hrecord hsettles
    exact .inr ⟨fields, hrecord, hsettles⟩

section
variable {q : Request} {verdicts : List (Option DedupVerdict)} {existing : Finset String}
  {batch : List (String × Json)} {fill : List Fate}
  (hland : List.Forall₂ (Lands hashRecord q.recordIds existing batch)
    (unsettled Item.settled (itemsOf q.records verdicts)) fill) {i : ℕ}

include hland

theorem duplicate_at {entry : Duplicate}
    (h : (splice ((itemsOf q.records verdicts).map Item.settled) fill)[i]? =
      some (.duplicate entry)) : entry.recordIndex = i := by
  rcases fate_at hland h with ⟨other, hother, hindex⟩ | ⟨_, _, ⟨hfate, _⟩ | ⟨hfate, _⟩⟩
  · exact Fate.duplicate.inj hother ▸ hindex
  · cases hfate
  · cases hfate

theorem stashed_at {id : String}
    (h : (splice ((itemsOf q.records verdicts).map Item.settled) fill)[i]? = some (.stashed id)) :
    ∃ fields, q.records[i]? = some (.obj fields) ∧
      id = targetId hashRecord (explicitAt q.recordIds i) fields ∧ (id, .obj fields) ∈ batch := by
  rcases fate_at hland h with ⟨_, hfate, _⟩ | ⟨fields, hrecord, ⟨hfate, hmem⟩ | ⟨hfate, _⟩⟩
  · cases hfate
  · obtain rfl := Fate.stashed.inj hfate
    exact ⟨fields, hrecord, rfl, hmem⟩
  · cases hfate

theorem already_at {id : String}
    (h : (splice ((itemsOf q.records verdicts).map Item.settled) fill)[i]? = some (.already id)) :
    ∃ fields, q.records[i]? = some (.obj fields) ∧
      id = targetId hashRecord (explicitAt q.recordIds i) fields ∧
      (id ∈ existing ∨ id ∈ batch.map Prod.fst) := by
  rcases fate_at hland h with ⟨_, hfate, _⟩ | ⟨fields, hrecord, ⟨hfate, _⟩ | ⟨hfate, hthere⟩⟩
  · cases hfate
  · cases hfate
  · obtain rfl := Fate.already.inj hfate
    exact ⟨fields, hrecord, rfl, hthere.imp_right fun h => h.resolve_left List.not_mem_nil⟩

end

/-- The survivors' fates put back among the duplicates account for the records. -/
theorem accounted {q : Request} {s : Pad} {v : Survivors} {targets : List String}
    {verdicts : List (Option DedupVerdict)} (hlength : verdicts.length = q.records.length)
    (hrows : rows v.ids 0 v.records =
      (unsettled Item.settled (itemsOf q.records verdicts)).map (Item.row q.recordIds))
    (hduplicates : v.duplicates =
      (itemsOf q.records verdicts).filterMap fun item => (Item.settled item).bind Fate.entry)
    (htargets : List.Forall₂ (HasTarget hashRecord) (rows v.ids 0 v.records) targets) :
    Accounted hashRecord q s
      (batched ttl s q.collection
        (splitTargets (s.listIds q.collection) [] (targets.zip v.records)).1)
      ⟨q.collection, (splitTargets (s.listIds q.collection) [] (targets.zip v.records)).1.map Prod.fst,
        (splitTargets (s.listIds q.collection) [] (targets.zip v.records)).2.map alreadyEntry,
        v.duplicates⟩
      (splice ((itemsOf q.records verdicts).map Item.settled)
        (targetFates (s.listIds q.collection) [] (targets.zip v.records))) := by
  have hland : List.Forall₂ (Lands hashRecord q.recordIds (s.listIds q.collection) _) _ _ :=
    survivors_land hrows htargets
  have hfill := hland.length_eq.symm
  have hentry : ∀ fate ∈ targetFates (s.listIds q.collection) [] (targets.zip v.records),
      fate.entry = none := fun _ => entry_of_targetFates
  obtain ⟨hids, halready⟩ : (splitTargets (s.listIds q.collection) [] _).1.map Prod.fst = _ ∧
    (splitTargets (s.listIds q.collection) [] (targets.zip v.records)).2 = _ := targetFates_split
  obtain ⟨hnodup, hfresh⟩ : ((splitTargets (s.listIds q.collection) []
    (targets.zip v.records)).1.map Prod.fst).Nodup ∧ _ := splitTargets_new
  constructor
  case length =>
    rw [length_splice hfill, List.length_zipIdx, List.length_zip, hlength, Nat.min_self]
  case ids =>
    rw [hids, filterMap_splice_unsettled Fate.stashedId _ hfill]
    intro item fate h
    obtain ⟨entry, rfl, -⟩ := fate_of_settled h
    rfl
  case already =>
    rw [halready, filterMap_splice_unsettled Fate.alreadyId _ hfill]
    intro item fate h
    obtain ⟨entry, rfl, -⟩ := fate_of_settled h
    rfl
  case duplicates => rw [hduplicates, filterMap_splice_settled Fate.entry hfill hentry]
  case index => exact fun i entry h => duplicate_at hland h
  case target =>
    rintro i id (h | h)
    · obtain ⟨fields, hrecord, hid, -⟩ := stashed_at hland h
      exact ⟨fields, hrecord, hid⟩
    · obtain ⟨fields, hrecord, hid, -⟩ := already_at hland h
      exact ⟨fields, hrecord, hid⟩
  case nodup => exact hnodup
  case fresh => exact fun id hid => (hfresh id hid).1
  case listed => exact fun c id => mem_listIds_batched
  case payload =>
    intro i id h
    obtain ⟨fields, hrecord, -, hmem⟩ := stashed_at hland h
    rw [hrecord]
    exact get_batched_of_mem hnodup hmem
  case kept => exact fun c id h => get_batched_other h
  case present =>
    intro i id h
    obtain ⟨fields, -, -, hthere⟩ := already_at hland h
    exact mem_listIds_batched.mpr (hthere.imp_right fun hbatch => ⟨rfl, hbatch⟩)

/-- Whatever a call is given and whatever its dedup says, each record is stashed with its id and its
    payload, or reported with its id, or reported with its index; and the same call again stashes
    nothing. -/
theorem handler_accounts {ctx : CallContext} {args : Args} {s t : Pad} {r : StashResponse}
    (h : handler hashRecord repr ttl ctx args s = .ok (.response r, t)) :
    ∃ q fates, requestOf repr args.dict = .ok q ∧ r.collection = q.collection ∧
      Accounted hashRecord q s t r fates ∧
      ∃ again, handler hashRecord repr ttl ctx args t = .ok (.response again, t) ∧
        again.ids = [] := by
  obtain ⟨q, v, targets, hq, hv, htargets, hcall⟩ := exists_request h
  obtain ⟨verdicts, hlength, hrows, hduplicates⟩ := exists_verdicts hv
  rw [hcall] at h
  obtain ⟨hr, rfl⟩ := Prod.mk.inj (Except.ok.inj h)
  obtain rfl := Reply.response.inj hr
  refine ⟨q, _, hq, rfl,
    accounted hlength hrows hduplicates (hasTarget_of_computed htargets), ?_⟩
  have hnothing : (splitTargets ((batched ttl s q.collection
      (splitTargets (s.listIds q.collection) [] (targets.zip v.records)).1).listIds q.collection) []
      (targets.zip v.records)).1 = [] := by
    refine splitTargets_nothing fun target htarget => mem_listIds_batched.mpr ?_
    exact (splitTargets_covers htarget).imp_right fun h => ⟨rfl, h⟩
  have hagain := hcall (batched ttl s q.collection
    (splitTargets (s.listIds q.collection) [] (targets.zip v.records)).1)
  rw [hnothing] at hagain
  exact ⟨_, hagain, rfl⟩

/-- A dedup that knows the job `a`. -/
def knowsA (records : List Json) : Except Raised (List (Option DedupVerdict)) :=
  .ok (records.map fun record =>
    if record = .obj [("job", .str "a")] then some ⟨"exact", some "j-1", "seen before"⟩ else none)

def inRun : CallContext := ⟨true, [], some knowsA⟩

/-- A known job, one with an id, and the same one twice without. -/
def fourJobs : Args := .of
  [("collection", .str "pending"),
    ("records", .arr [.obj [("job", .str "a")], .obj [("job", .str "b")], .obj [("job", .str "c")],
      .obj [("job", .str "c")]]),
    ("record_ids", .arr [.null, .str "j-2", .null, .str ""])]

theorem fourJobs_accounted : ∃ r t, handler (fun _ => "h") (fun _ => "") 60 inRun fourJobs
    Services.Scratchpad.start = .ok (.response r, t) ∧ r.ids = ["j-2", "h"] ∧
      r.alreadyStashed = [alreadyEntry "h"] ∧
      r.duplicates = [⟨0, "exact", "seen before", some "j-1"⟩] ∧
      ∃ q fates, requestOf (fun _ => "") fourJobs.dict = .ok q ∧ r.collection = q.collection ∧
        Accounted (fun _ => "h") q Services.Scratchpad.start t r fates ∧
        ∃ again, handler (fun _ => "h") (fun _ => "") 60 inRun fourJobs t = .ok (.response again, t) ∧
          again.ids = [] :=
  ⟨_, _, rfl, rfl, rfl, rfl, handler_accounts rfl⟩

end LunaCore.Mcp.StashRecords
