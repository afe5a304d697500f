import LunaCore.Schemes.Fallible
import LunaCore.Schemes.Splice
import LunaCore.Services.Scratchpad
import LunaCore.Values.Json

/-! `ScratchpadStore` with what it checks: names, lengths, records and ids.

    records      [ r₀      r₁      r₂   ]
    record_ids   [ "a"     None    ""   ]   or None
    ids          [ "a"     hash    hash ]

    A record comes with the id in its own place. `compute_target_ids` and `stash_batch` give the same
    ids, and between two commands of a batch nothing else runs here: what may, and what it does to
    the batch, is the machine of `stashRecords_run`. -/

namespace LunaCore.Services.ScratchpadStore
open LunaCore.Schemes LunaCore.Values LunaCore.Services.Scratchpad

/-- The scratchpad of a run. -/
abbrev Pad := Scratchpad.State String String Json

/-- `type(value).__name__`. -/
def typeName : Json → String
  | .null => "NoneType"
  | .bool _ => "bool"
  | .num q => if q.den = 1 then "int" else "float"
  | .str _ => "str"
  | .arr _ => "list"
  | .obj _ => "dict"

/-- `[a-z_]`. -/
def startsCollection (c : Char) : Bool := c.isLower || c == '_'

/-- `[a-z0-9_]`. -/
def continuesCollection (c : Char) : Bool := startsCollection c || c.isDigit

/-- `_VALID_COLLECTION_NAME.match`; `$` also stands before a newline at the end. -/
def validCollectionName (name : String) : Bool := match name.toList with
  | [] => false
  | c :: rest => startsCollection c && rest.dropWhile continuesCollection ∈ [[], ['\n']]

variable (hashRecord : Dict → String) (repr : Json → String) (ttl : ℕ+)

/-- `_validate_collection_name`. -/
def checkCollectionName (name : String) : Except String Unit :=
  if validCollectionName name then .ok ()
  else .error ("invalid collection name " ++ repr (.str name) ++ ": must match ^[a-z_][a-z0-9_]*$")

/-- The ids that come with the records: one for each, an id or None, or none at all. -/
abbrev RecordIds := Option (List (Option String))

/-- `record_ids[index] if record_ids is not None else None`. -/
def explicitAt (ids : RecordIds) (index : ℕ) : Option String := (ids.bind (·[index]?)).join

def lengthMessage (ids records : ℕ) : String :=
  "record_ids length (" ++ toString ids ++ ") does not match records length (" ++
    toString records ++ ")"

def checkLength (records : List Json) : RecordIds → Except String Unit
  | some ids =>
    if ids.length = records.length then .ok ()
    else .error (lengthMessage ids.length records.length)
  | none => .ok ()

/-- `explicit if explicit else _hash_record(record)`. -/
def targetId (explicit : Option String) (record : Dict) : String := match explicit with
  | some id => if id = "" then hashRecord record else id
  | none => hashRecord record

/-- The loop over the records, from an index on. -/
def targetIds (ids : RecordIds) : ℕ → List Json → Except String (List String)
  | _, [] => .ok []
  | index, .obj record :: records => (targetIds ids (index + 1) records).map fun out =>
    targetId hashRecord (explicitAt ids index) record :: out
  | index, record :: _ => .error ("record at index " ++ toString index ++ " is " ++
    typeName record ++ ", expected dict")

def computeTargetIds (records : List Json) (ids : RecordIds) : Except String (List String) :=
  match checkLength records ids with
  | .error message => .error message
  | .ok () => targetIds hashRecord ids 0 records

def listIds (s : Pad) (collection : String) : Except String (Finset String) :=
  (checkCollectionName repr collection).map fun _ => s.listIds collection

/-- The commands of a batch: SET each record, SADD the ids, EXPIRE the set. -/
def stored (s : Pad) (collection : String) (targets : List (String × Json)) : Pad := { s with
  records := targets.foldl (fun records target =>
    records.set (collection, target.1) target.2 (some (s.now + ttl))) s.records
  indexes := (s.indexes.addMembers s.now collection (targets.map Prod.fst).toFinset).expire s.now
    collection (s.now + ttl) }

def stashBatch (s : Pad) (collection : String) (records : List Json) (ids : RecordIds) :
    Except String (List String × Pad) :=
  match checkCollectionName repr collection, checkLength records ids with
  | .error message, _ => .error message
  | .ok (), .error message => .error message
  | .ok (), .ok () =>
    if records = [] then .ok ([], s)
    else match targetIds hashRecord ids 0 records with
      | .error message => .error message
      | .ok out => .ok (out, stored ttl s collection (out.zip records))

variable {hashRecord : Dict → String} {repr : Json → String} {ttl : ℕ+}

/-- A name that is valid is so whatever the store holds. -/
theorem listIds_ok {s : Pad} {collection : String} {existing : Finset String}
    (h : listIds repr s collection = .ok existing) :
    checkCollectionName repr collection = .ok () ∧
      ∀ t : Pad, listIds repr t collection = .ok (t.listIds collection) := by
  obtain ⟨_, hname, -⟩ := map_eq_ok_iff.mp h
  exact ⟨hname, fun t => map_eq_ok_iff.mpr ⟨(), hname, rfl⟩⟩

/-! ### Records with their ids -/

/-- The records, each with the explicit id in its place. -/
def rows (ids : RecordIds) (index : ℕ) (records : List Json) : List (Json × Option String) :=
  (records.zipIdx index).map fun record => (record.1, explicitAt ids record.2)

theorem rows_cons (ids : RecordIds) (index : ℕ) (record : Json) (records : List Json) :
    rows ids index (record :: records) =
      (record, explicitAt ids index) :: rows ids (index + 1) records := rfl

theorem rows_records (ids : RecordIds) (index : ℕ) (records : List Json) :
    (rows ids index records).map Prod.fst = records := by
  rw [rows, List.map_map]
  exact List.zipIdx_map_fst index records

/-- Ids that were collected beside the records are in their places. -/
theorem rows_collected {β : Type} (ids : Option β) {records : List Json}
    {collected : List (Option String)} (hlength : collected.length = records.length)
    (hnone : ids = none → ∀ id ∈ collected, id = none) :
    rows (ids.map fun _ => collected) 0 records = records.zip collected := by
  refine List.ext_getElem? fun i => ?_
  rw [rows, List.getElem?_map, List.getElem?_zipIdx, List.zip, List.getElem?_zipWith, Nat.zero_add,
    Option.map_map]
  cases hrecord : records[i]? with
  | none => rfl
  | some record =>
    have hi : i < collected.length := hlength ▸ (List.getElem?_eq_some_iff.mp hrecord).1
    obtain ⟨id, hid⟩ : ∃ id, collected[i]? = some id := ⟨_, List.getElem?_eq_getElem hi⟩
    cases ids with
    | none =>
      obtain rfl := hnone rfl id (List.mem_of_getElem? hid)
      simp [explicitAt, hid]
    | some other => simp [explicitAt, hid]

/-- The id of a row. -/
def HasTarget (hashRecord : Dict → String) (row : Json × Option String) (id : String) : Prop :=
  ∃ fields, row.1 = .obj fields ∧ id = targetId hashRecord row.2 fields

theorem targetIds_ok_iff {ids : RecordIds} : ∀ {records : List Json} {index : ℕ}
    {out : List String}, targetIds hashRecord ids index records = .ok out ↔
      List.Forall₂ (HasTarget hashRecord) (rows ids index records) out := by
  intro records
  induction records with
  | nil =>
    intro index out
    rw [targetIds, rows, List.zipIdx_nil, List.map_nil, List.forall₂_nil_left_iff]
    exact ⟨fun h => (Except.ok.inj h).symm, fun h => h ▸ rfl⟩
  | cons record records ih =>
    intro index out
    rw [rows_cons, List.forall₂_cons_left_iff]
    cases record with
    | obj fields =>
      rw [targetIds, map_eq_ok_iff]
      constructor
      · rintro ⟨out', hrest, rfl⟩
        exact ⟨_, out', ⟨fields, rfl, rfl⟩, ih.mp hrest, rfl⟩
      · rintro ⟨id, out', ⟨fields', hfields, rfl⟩, hrest, rfl⟩
        obtain rfl := Json.obj.inj hfields
        exact ⟨out', ih.mpr hrest, rfl⟩
    | _ =>
      refine iff_of_false nofun ?_
      rintro ⟨_, _, ⟨_, hfields, _⟩, _⟩
      cases hfields

/-! ### What a batch leaves -/

section
variable {s : Pad} {collection c : String} {id : String} {targets : List (String × Json)}

theorem get_foldl_other {now deadline : ℕ} (hother : c = collection → id ∉ targets.map Prod.fst) :
    ∀ records : Expiries (String × String) Json, (targets.foldl (fun records target =>
      records.set (collection, target.1) target.2 (some deadline)) records).get now (c, id) =
        records.get now (c, id) := by
  induction targets with
  | nil => exact fun _ => rfl
  | cons target targets ih =>
    intro records
    rw [List.foldl_cons, ih fun hc => List.not_mem_of_not_mem_cons (hother hc)]
    refine Expiries.get_set_other ?_ _
    intro hkey
    obtain ⟨hc, hid⟩ := Prod.mk.inj hkey
    exact List.ne_of_not_mem_cons (hother hc) hid

theorem get_foldl_of_mem {now deadline : ℕ} (hlater : now < deadline) {record : Json}
    (hnodup : (targets.map Prod.fst).Nodup) (hmem : (id, record) ∈ targets) :
    ∀ records : Expiries (String × String) Json, (targets.foldl (fun records target =>
      records.set (collection, target.1) target.2 (some deadline)) records).get now
        (collection, id) = some record := by
  induction targets with
  | nil => cases hmem
  | cons target targets ih =>
    intro records
    rw [List.map_cons, List.nodup_cons] at hnodup
    rw [List.foldl_cons]
    rcases List.mem_cons.mp hmem with rfl | hmem
    · rw [get_foldl_other fun _ => hnodup.1]
      exact Expiries.get_set_self hlater
    · exact ih hnodup.2 hmem _

theorem mem_listIds_stored : id ∈ (stored ttl s collection targets).listIds c ↔
    id ∈ s.listIds c ∨ (c = collection ∧ id ∈ targets.map Prod.fst) := by
  rw [Scratchpad.State.listIds, stored, Expiries.members_expire (Nat.lt_add_of_pos_right ttl.pos),
    Expiries.mem_addMembers_iff, List.mem_toFinset]
  rfl

/-- The store after a batch; an empty one is no batch. -/
def batched (ttl : ℕ+) (s : Pad) (collection : String) (batch : List (String × Json)) : Pad :=
  if batch = [] then s else stored ttl s collection batch

theorem mem_listIds_batched : id ∈ (batched ttl s collection targets).listIds c ↔
    id ∈ s.listIds c ∨ (c = collection ∧ id ∈ targets.map Prod.fst) := by
  unfold batched
  split
  case isTrue hnil => simp [hnil]
  case isFalse => exact mem_listIds_stored

/-- A record of the batch is in the collection. -/
theorem get_batched_of_mem {record : Json} (hnodup : (targets.map Prod.fst).Nodup)
    (hmem : (id, record) ∈ targets) :
    (batched ttl s collection targets).get collection id = some record := by
  rw [batched, if_neg (List.ne_nil_of_mem hmem)]
  exact get_foldl_of_mem (Nat.lt_add_of_pos_right ttl.pos) hnodup hmem _

/-- Any other record, and any other collection, is as it was. -/
theorem get_batched_other (hother : c = collection → id ∉ targets.map Prod.fst) :
    (batched ttl s collection targets).get c id = s.get c id := by
  unfold batched
  split
  case isTrue => rfl
  case isFalse => exact get_foldl_other hother _

/-! ### The machine by itself -/

variable {hash : Json → String} {already : List String}

/-- The last of the calls goes on. -/
theorem step_last {now : ℕ} {records : Expiries (String × String) Json}
    {indexes : Expiries String (Finset String)} {ops : List (Op String String Json)}
    {op : Op String String Json} : Scratchpad.step hash ⟨now, records, indexes, ops ++ [op]⟩
      (.advance ops.length) = advance ⟨now, records, indexes, ops ++ [op]⟩ ops.length op := by
  rw [Scratchpad.step, List.getElem?_concat_length]
  rfl

theorem set_last {ops : List (Op String String Json)} {op other : Op String String Json} :
    (ops ++ [op]).set ops.length other = ops ++ [other] := by
  rw [List.set_append_right _ _ (Nat.le_refl _), Nat.sub_self, List.set_cons_zero]

theorem storing_run : ∀ {targets : List (String × Json)} {done : List String}
    {records : Expiries (String × String) Json},
    runFrom (Scratchpad.step hash)
      ⟨s.now, records, s.indexes, s.ops ++ [⟨.storing collection ttl done targets, already⟩]⟩
      (List.replicate (targets.length + 2) (.advance s.ops.length)) =
    some ⟨s.now, targets.foldl (fun records target =>
        records.set (collection, target.1) target.2 (some (s.now + ttl))) records,
      (s.indexes.addMembers s.now collection (done ++ targets.map Prod.fst).toFinset).expire s.now
        collection (s.now + ttl), s.ops ++ [⟨.finished, already⟩]⟩ := by
  intro targets
  induction targets with
  | nil =>
    intro done records
    simp only [List.length_nil, List.replicate, runFrom_cons, runFrom_nil]
    rw [step_last, advance]
    simp only [Option.bind_some, set_last]
    rw [step_last, advance]
    simp only [Option.bind_some, set_last, List.map_nil, List.append_nil, List.foldl_nil]
  | cons target targets ih =>
    intro done records
    obtain ⟨id, record⟩ := target
    rw [List.length_cons, Nat.add_right_comm, List.replicate_succ, runFrom_cons, step_last, advance]
    simp only [Option.bind_some, set_last]
    rw [ih, List.append_assoc]
    rfl

/-- The commands of a call of `stash_records` after its first, if nothing else goes on. -/
def commandsLeft (batch : List (String × Json)) : ℕ := if batch = [] then 0 else batch.length + 2

/-- REFINEMENT: what a call of `stash_records` leaves and reports is what the machine makes of it
    when no other call goes on. -/
theorem stashRecords_run (s : Pad) (collection : String) (ttl : ℕ+) (targets : List (String × Json))
    (hash : Json → String) :
    runFrom (Scratchpad.step hash) s
      (.stashRecords collection ttl (targets.map fun target => (target.2, some target.1)) ::
        .advance s.ops.length :: List.replicate
          (commandsLeft (splitTargets (s.listIds collection) [] targets).1)
          (.advance s.ops.length)) =
    some { batched ttl s collection (splitTargets (s.listIds collection) [] targets).1 with
      ops := s.ops ++ [⟨.finished, (splitTargets (s.listIds collection) [] targets).2⟩] } := by
  have htargets : Scratchpad.computeTargetIds hash
      (targets.map fun target => (target.2, some target.1)) = targets := by
    rw [Scratchpad.computeTargetIds, List.map_map]
    exact List.map_id' targets
  have hlook : advance { s with ops := s.ops ++ [⟨.looking collection ttl targets, []⟩] } s.ops.length
      ⟨.looking collection ttl targets, []⟩ = some { s with ops := s.ops ++
        [⟨beginBatch collection ttl (splitTargets (s.listIds collection) [] targets).1,
          (splitTargets (s.listIds collection) [] targets).2⟩] } := by
    rw [advance]
    simp only [set_last]
    rfl
  rw [runFrom_cons, Scratchpad.step, htargets, Option.bind_some, runFrom_cons, step_last, hlook,
    Option.bind_some]
  cases hbatch : (splitTargets (s.listIds collection) [] targets).1 with
  | nil => rfl
  | cons target batch =>
    rw [commandsLeft, batched, if_neg (List.cons_ne_nil _ _), if_neg (List.cons_ne_nil _ _)]
    exact storing_run

end

end LunaCore.Services.ScratchpadStore
