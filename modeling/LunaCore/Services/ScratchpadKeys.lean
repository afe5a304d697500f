import Mathlib.Data.List.TakeWhile
import LunaCore.Schemes.Fallible
import LunaCore.Schemes.Joined
import LunaCore.Schemes.Keyspace
import LunaCore.Schemes.Machine
import LunaCore.Services.ScratchpadStore

/-! `ScratchpadStore` in the one keyspace all runs share.

        scratchpad:{run}:records:{collection}:{id}     a record
        scratchpad:{run}:index:{collection}            the ids of a collection
        scratchpad:{run}:collections                   the collections of a run

    What a caller is promised is a map: a record under a run, a collection and an id. The keys are
    texts put together, and an id may hold colons; run ids and collection names hold none, and that
    keeps the keys apart. `stash_batch` gives its keys a TTL, and time passes between the calls. As
    long as no key runs out the map is kept; what becomes of a collection that runs out in parts is
    the matter of `Services.Scratchpad`. -/

namespace LunaCore.Services.ScratchpadKeys
open LunaCore.Schemes LunaCore.Values
open LunaCore.Services.ScratchpadStore (validCollectionName startsCollection continuesCollection)

/-- A run id: the text of a UUID. -/
abbrev RunId := { run : String // ':' ∉ run.toList }

abbrev Keys := Keyspace String Dict String

abbrev Redis := Clocked String Dict String

/-! ### Keys -/

/-- `_record_key`. -/
def recordKey (run : RunId) (collection id : String) : String :=
  "scratchpad:" ++ run.1 ++ ":records:" ++ collection ++ ":" ++ id

/-- `_index_key`. -/
def indexKey (run : RunId) (collection : String) : String :=
  "scratchpad:" ++ run.1 ++ ":index:" ++ collection

/-- `_collections_key`. -/
def collectionsKey (run : RunId) : String := "scratchpad:" ++ run.1 ++ ":collections"

/-! ### Calls -/

/-- What a call can raise: the name is refused, or a command meets a value of the other kind. -/
inductive Refusal where
  | badName (collection : String)
  | wrongType
  deriving DecidableEq

/-- A command of the keyspace. -/
def typed {α : Type} : Option α → Except Refusal α
  | some a => .ok a
  | none => .error .wrongType

/-- `_validate_collection_name`. -/
def checkName (collection : String) : Except Refusal Unit :=
  if validCollectionName collection then .ok () else .error (.badName collection)

/-- `stash_batch`, of records whose ids are computed. The TTL is positive, as Redis refuses
    `EX 0`. -/
def stashBatch (ttl : ℕ+) (s : Redis) (run : RunId) (collection : String)
    (targets : List (String × Dict)) : Except Refusal Redis := do
  checkName collection
  if targets = [] then return s
  let s := targets.foldl (fun s t => s.set (recordKey run collection t.1) t.2 ttl) s
  let s ← typed (s.sadd (indexKey run collection) (targets.map Prod.fst))
  let s := s.expire (indexKey run collection) ttl
  let s ← typed (s.sadd (collectionsKey run) [collection])
  return s.expire (collectionsKey run) ttl

/-- `get`. -/
def get (s : Redis) (run : RunId) (collection id : String) : Except Refusal (Option Dict) := do
  checkName collection
  typed (s.keys.get (recordKey run collection id))

/-- `list_ids`. -/
def listIds (s : Redis) (run : RunId) (collection : String) : Except Refusal (List String) := do
  checkName collection
  typed (s.keys.smembers (indexKey run collection))

/-- The loop of `list_records`: an id without a record is left out. -/
def fetchAll (s : Redis) (run : RunId) (collection : String) :
    List String → Except Refusal (List (String × Dict))
  | [] => .ok []
  | id :: ids => do
    let payload ← get s run collection id
    let rest ← fetchAll s run collection ids
    return (payload.map fun record => (id, record)).toList ++ rest

/-- `list_records`. -/
def listRecords (s : Redis) (run : RunId) (collection : String) :
    Except Refusal (List (String × Dict)) := do
  let ids ← listIds s run collection
  fetchAll s run collection ids

/-- `drop`, and whether there was one. -/
def drop (s : Redis) (run : RunId) (collection id : String) : Except Refusal (Redis × Bool) := do
  checkName collection
  let removed := (s.keys (recordKey run collection id)).isSome
  let s := s.delete (recordKey run collection id)
  let s ← typed (s.srem (indexKey run collection) id)
  return (s, removed)

/-- `count`: SCARD. -/
def count (s : Redis) (run : RunId) (collection : String) : Except Refusal ℕ := do
  checkName collection
  let ids ← typed (s.keys.smembers (indexKey run collection))
  return ids.length

/-- `clear_collection`, and how many records it removed. -/
def clearCollection (s : Redis) (run : RunId) (collection : String) :
    Except Refusal (Redis × ℕ) := do
  let ids ← listIds s run collection
  if ids = [] then return (s, 0)
  let s := ids.foldl (fun s id => s.delete (recordKey run collection id)) s
  let s := s.delete (indexKey run collection)
  let s ← typed (s.srem (collectionsKey run) collection)
  return (s, ids.length)

/-- The loop of `clear_run`. -/
def clearEach (run : RunId) : List String → Redis → Except Refusal (Redis × ℕ)
  | [], s => .ok (s, 0)
  | collection :: collections, s => do
    let (s, removed) ← clearCollection s run collection
    let (s, others) ← clearEach run collections s
    return (s, removed + others)

/-- `clear_run`. -/
def clearRun (s : Redis) (run : RunId) : Except Refusal (Redis × ℕ) := do
  let collections ← typed (s.keys.smembers (collectionsKey run))
  let (s, total) ← clearEach run collections s
  return (s.delete (collectionsKey run), total)

/-- A call of the store. -/
inductive Call where
  | stashBatch (run : RunId) (collection : String) (targets : List (String × Dict))
  | get (run : RunId) (collection id : String)
  | listIds (run : RunId) (collection : String)
  | listRecords (run : RunId) (collection : String)
  | drop (run : RunId) (collection id : String)
  | count (run : RunId) (collection : String)
  | clearCollection (run : RunId) (collection : String)
  | clearRun (run : RunId)

inductive Answer where
  | stashed
  | record (record : Option Dict)
  | ids (ids : List String)
  | records (records : List (String × Dict))
  | existed (existed : Bool)
  | number (number : ℕ)

/-- A call on a store of this TTL, with what it leaves and gives back. -/
def perform (ttl : ℕ+) (s : Redis) : Call → Except Refusal (Redis × Answer)
  | .stashBatch run collection targets =>
    (stashBatch ttl s run collection targets).map fun t => (t, .stashed)
  | .get run collection id => (get s run collection id).map fun record => (s, .record record)
  | .listIds run collection => (listIds s run collection).map fun ids => (s, .ids ids)
  | .listRecords run collection =>
    (listRecords s run collection).map fun records => (s, .records records)
  | .drop run collection id => (drop s run collection id).map fun r => (r.1, .existed r.2)
  | .count run collection => (count s run collection).map fun n => (s, .number n)
  | .clearCollection run collection =>
    (clearCollection s run collection).map fun r => (r.1, .number r.2)
  | .clearRun run => (clearRun s run).map fun r => (r.1, .number r.2)

/-! ### What a caller is promised -/

/-- The records of a run, by collection and id. -/
abbrev Pad := String → String → Option Dict

def Call.run : Call → RunId
  | .stashBatch run .. | .get run .. | .listIds run _ | .listRecords run _ | .drop run ..
  | .count run _ | .clearCollection run _ | .clearRun run => run

/-- The collection a call names. -/
def Call.collection : Call → Option String
  | .stashBatch _ c _ | .get _ c _ | .listIds _ c | .listRecords _ c | .drop _ c _ | .count _ c
  | .clearCollection _ c => some c
  | .clearRun _ => none

/-- The name a call gives can be a collection's. -/
def Call.Named (call : Call) : Prop := ∀ c ∈ call.collection, validCollectionName c = true

instance (call : Call) : Decidable call.Named :=
  inferInstanceAs (Decidable (∀ c ∈ call.collection, validCollectionName c = true))

/-- The records of one collection, changed. -/
def Pad.change (pad : Pad) (c : String) (records : String → Option Dict) : Pad :=
  Function.update pad c records

/-- Records put over others; the last one under an id stays. -/
def putAll (old : String → Option Dict) (targets : List (String × Dict)) : String → Option Dict :=
  targets.foldl (fun old t => Function.update old t.1 (some t.2)) old

/-- What a call makes of the records of its run. -/
def Pad.after (pad : Pad) : Call → Pad
  | .stashBatch _ c targets => pad.change c (putAll (pad c) targets)
  | .drop _ c id => pad.change c (Function.update (pad c) id none)
  | .clearCollection _ c => pad.change c fun _ => none
  | .clearRun _ => fun _ _ => none
  | .get .. | .listIds .. | .listRecords .. | .count .. => pad

/-- Things listed, each once, in any order. -/
def Lists {α : Type} (things : List α) (p : α → Prop) : Prop :=
  things.Nodup ∧ ∀ a, a ∈ things ↔ p a

/-- SPEC: the answer to a call, of the records as they are. -/
def Pad.Answers (pad : Pad) : Call → Answer → Prop
  | .stashBatch .., .stashed => True
  | .get _ c id, .record record => record = pad c id
  | .listIds _ c, .ids ids => Lists ids fun id => (pad c id).isSome
  | .listRecords _ c, .records records =>
    (records.map Prod.fst).Nodup ∧ ∀ id record, (id, record) ∈ records ↔ pad c id = some record
  | .drop _ c id, .existed existed => existed = (pad c id).isSome
  | .count _ c, .number n | .clearCollection _ c, .number n =>
    ∃ ids, Lists ids (fun id => (pad c id).isSome) ∧ n = ids.length
  | .clearRun _, .number n =>
    ∃ entries : List (String × String),
      Lists entries (fun entry => (pad entry.1 entry.2).isSome) ∧ n = entries.length
  | _, _ => False

/-! ### Keys apart -/

/-- A key of the store. -/
inductive Place where
  | record (run : RunId) (collection id : String)
  | index (run : RunId) (collection : String)
  | collections (run : RunId)

def Place.key : Place → String
  | .record run c id => recordKey run c id
  | .index run c => indexKey run c
  | .collections run => collectionsKey run

/-- Its collection has a name that is let through. -/
def Place.Named : Place → Prop
  | .record _ c _ | .index _ c => validCollectionName c = true
  | .collections _ => True

theorem colon_notMem_name {name : String} (h : validCollectionName name = true) :
    ':' ∉ name.toList := by
  unfold validCollectionName at h
  cases hname : name.toList with
  | nil => simp
  | cons c rest =>
    rw [hname] at h
    simp only [Bool.and_eq_true, List.mem_cons, List.not_mem_nil, or_false,
      decide_eq_true_eq] at h
    obtain ⟨hc, hrest⟩ := h
    intro hmem
    rcases List.mem_cons.mp hmem with rfl | hmem
    · exact absurd hc (by decide)
    · rw [← List.takeWhile_append_dropWhile (p := continuesCollection) (l := rest)] at hmem
      rcases List.mem_append.mp hmem with htake | hdrop
      · exact absurd (List.mem_takeWhile_imp htake) (by decide)
      · rcases hrest with hnone | hline
        · rw [hnone] at hdrop
          cases hdrop
        · rw [hline] at hdrop
          simp at hdrop

/-- What stands behind the run in a key. -/
def Place.tail : Place → List Char
  | .record _ c id => "records".toList ++ ':' :: (c.toList ++ ':' :: id.toList)
  | .index _ c => "index".toList ++ ':' :: c.toList
  | .collections _ => "collections".toList

def Place.run : Place → RunId
  | .record run _ _ | .index run _ | .collections run => run

theorem Place.key_toList (p : Place) :
    p.key.toList = "scratchpad:".toList ++ (p.run.1.toList ++ ':' :: p.tail) := by
  have hrecords : ":records:".toList = ':' :: ("records".toList ++ [':']) := by decide
  have hindex : ":index:".toList = ':' :: ("index".toList ++ [':']) := by decide
  have hcolon : ":".toList = [':'] := by decide
  cases p with
  | record run c id =>
    change (recordKey run c id).toList = "scratchpad:".toList ++ (run.1.toList ++
      ':' :: ("records".toList ++ ':' :: (c.toList ++ ':' :: id.toList)))
    simp only [recordKey, String.toList_append, hrecords, hcolon, List.append_assoc,
      List.cons_append, List.nil_append]
  | index run c =>
    change (indexKey run c).toList = "scratchpad:".toList ++ (run.1.toList ++
      ':' :: ("index".toList ++ ':' :: c.toList))
    simp only [indexKey, String.toList_append, hindex, List.append_assoc, List.cons_append,
      List.nil_append]
  | collections run =>
    have hcollections : ":collections".toList = ':' :: "collections".toList := by decide
    change (collectionsKey run).toList = "scratchpad:".toList ++ (run.1.toList ++
      ':' :: "collections".toList)
    simp only [collectionsKey, String.toList_append, hcollections, List.append_assoc]

/-- No two places of named collections share a key. -/
theorem Place.key_injective {p q : Place} (hp : p.Named) (hq : q.Named) (h : p.key = q.key) :
    p = q := by
  have hlists := congrArg String.toList h
  rw [Place.key_toList, Place.key_toList] at hlists
  obtain ⟨hrun, htail⟩ := cut_inj p.run.2 q.run.2 (List.append_cancel_left hlists)
  have hrun : p.run = q.run := Subtype.ext (String.toList_inj.mp hrun)
  have hrecords : ':' ∉ "records".toList := by decide
  have hindex : ':' ∉ "index".toList := by decide
  have hcolon : ':' ∉ "collections".toList := by decide
  have hcollections {text rest : List Char} : text ++ ':' :: rest ≠ "collections".toList := by
    intro heq
    rw [← heq] at hcolon
    exact hcolon (List.mem_append_right text List.mem_cons_self)
  cases p with
  | record run c id =>
    cases q with
    | record run' c' id' =>
      obtain ⟨hc, hid⟩ := cut_inj (colon_notMem_name hp) (colon_notMem_name hq)
        (cut_inj hrecords hrecords htail).2
      obtain rfl : run = run' := hrun
      rw [String.toList_inj.mp hc, String.toList_inj.mp hid]
    | index => exact absurd (cut_inj hrecords hindex htail).1 (by decide)
    | collections => exact absurd htail hcollections
  | index run c =>
    cases q with
    | record => exact absurd (cut_inj hindex hrecords htail).1 (by decide)
    | index run' c' =>
      obtain rfl : run = run' := hrun
      rw [String.toList_inj.mp (cut_inj hindex hindex htail).2]
    | collections => exact absurd htail hcollections
  | collections run =>
    cases q with
    | record => exact absurd htail.symm hcollections
    | index => exact absurd htail.symm hcollections
    | collections run' =>
      obtain rfl : run = run' := hrun
      rfl

theorem Place.key_ne {p q : Place} (hp : p.Named) (hq : q.Named) (hne : p ≠ q) : p.key ≠ q.key :=
  fun h => hne (Place.key_injective hp hq h)

/-! ### One run -/

/-- The keys of a run hold its records, and what is needed to find them. -/
structure Keeps (s : Keys) (run : RunId) (pad : Pad) : Prop where
  named : ∀ c id, (pad c id).isSome → validCollectionName c = true
  record : ∀ c id, validCollectionName c = true →
    s (recordKey run c id) = (pad c id).map .text
  index : ∀ c, validCollectionName c = true → ∃ ids,
    s.smembers (indexKey run c) = some ids ∧ Lists ids fun id => (pad c id).isSome
  collections : ∃ cs, s.smembers (collectionsKey run) = some cs ∧ cs.Nodup ∧
    (∀ c ∈ cs, validCollectionName c = true) ∧ ∀ c id, (pad c id).isSome → c ∈ cs

/-- Nothing but keys of the run was touched. -/
def Frame (run : RunId) (s t : Keys) : Prop :=
  ∀ key, (∀ place : Place, place.Named → place.run = run → key ≠ place.key) → t key = s key

theorem Frame.refl (run : RunId) (s : Keys) : Frame run s s := fun _ _ => rfl

theorem Frame.trans {run : RunId} {s t u : Keys} (hst : Frame run s t) (htu : Frame run t u) :
    Frame run s u := fun key hkey => (htu key hkey).trans (hst key hkey)

theorem Frame.other {run : RunId} {s t : Keys} (h : Frame run s t) (place : Place)
    (hnamed : place.Named) (hrun : place.run ≠ run) : t place.key = s place.key :=
  h place.key fun _ hown hownRun => Place.key_ne hnamed hown fun heq => hrun (heq ▸ hownRun)

/-- FRAME: another run keeps what it kept. -/
theorem Keeps.frame {s t : Keys} {run run' : RunId} {pad : Pad} (h : Keeps s run' pad)
    (hframe : Frame run s t) (hrun : run' ≠ run) : Keeps t run' pad where
  named := h.named
  record := fun c id hc =>
    (hframe.other (.record run' c id) hc hrun).trans (h.record c id hc)
  index := fun c hc => by
    obtain ⟨ids, hids, hlists⟩ := h.index c hc
    have hkey := hframe.other (.index run' c) hc hrun
    exact ⟨ids, (Keyspace.smembers_congr hkey).trans hids, hlists⟩
  collections := by
    obtain ⟨cs, hcs, hrest⟩ := h.collections
    have hkey := hframe.other (.collections run') trivial hrun
    exact ⟨cs, (Keyspace.smembers_congr hkey).trans hcs, hrest⟩

/-- The keys are as they were, but for those of one collection of the run, and for the names of its
    collections. -/
theorem Keeps.change {s t : Keys} {run : RunId} {pad : Pad} {c : String}
    {records : String → Option Dict} (h : Keeps s run pad) (hc : validCollectionName c = true)
    (hsame : ∀ key, (∀ id, key ≠ recordKey run c id) → key ≠ indexKey run c →
      key ≠ collectionsKey run → t key = s key)
    (hrecord : ∀ id, t (recordKey run c id) = (records id).map .text)
    (hindex : ∃ ids, t.smembers (indexKey run c) = some ids ∧
      Lists ids fun id => (records id).isSome)
    (hcollections : ∃ cs, t.smembers (collectionsKey run) = some cs ∧ cs.Nodup ∧
      (∀ c ∈ cs, validCollectionName c = true) ∧
        ∀ c' id, (pad.change c records c' id).isSome → c' ∈ cs) :
    Keeps t run (pad.change c records) ∧ Frame run s t := by
  have hplace : ∀ place : Place, place.Named → (∀ id, place ≠ .record run c id) →
      place ≠ .index run c → place ≠ .collections run → t place.key = s place.key :=
    fun place hnamed hrecord hindex hcollections => hsame place.key
      (fun id => Place.key_ne (q := .record run c id) hnamed hc (hrecord id))
      (Place.key_ne (q := .index run c) hnamed hc hindex)
      (Place.key_ne (q := .collections run) hnamed trivial hcollections)
  refine ⟨⟨fun c' id hid => ?_, fun c' id hc' => ?_, fun c' hc' => ?_, hcollections⟩,
    fun key hkey => hsame key (fun id => hkey (.record run c id) hc rfl)
      (hkey (.index run c) hc rfl) (hkey (.collections run) trivial rfl)⟩
  · by_cases heq : c' = c
    · exact heq ▸ hc
    · rw [Pad.change, Function.update_of_ne heq] at hid
      exact h.named c' id hid
  · by_cases heq : c' = c
    · rw [heq, Pad.change, Function.update_self]
      exact hrecord id
    · rw [Pad.change, Function.update_of_ne heq, ← h.record c' id hc']
      exact hplace (.record run c' id) hc' (by simp [heq]) (by simp) (by simp)
  · by_cases heq : c' = c
    · rw [heq, Pad.change, Function.update_self]
      exact hindex
    · obtain ⟨ids, hids, hlists⟩ := h.index c' hc'
      rw [Pad.change, Function.update_of_ne heq]
      refine ⟨ids, (Keyspace.smembers_congr ?_).trans hids, hlists⟩
      exact hplace (.index run c') hc' (by simp) (by simp [heq]) (by simp)

/-! ### What each call does -/

section Calls

variable {s t : Redis} {run : RunId} {pad : Pad} {c : String}

theorem checkName_ok (hc : validCollectionName c = true) : checkName c = .ok () := by
  rw [checkName, if_pos hc]

theorem ok_bind {α β : Type} (a : α) (f : α → Except Refusal β) : (.ok a >>= f) = f a := rfl

theorem isSome_putAll (targets : List (String × Dict)) (old : String → Option Dict) (id : String) :
    (putAll old targets id).isSome ↔ (old id).isSome ∨ id ∈ targets.map Prod.fst := by
  induction targets generalizing old with
  | nil => simp [putAll]
  | cons target targets ih =>
    have hstep : putAll old (target :: targets) =
      putAll (Function.update old target.1 (some target.2)) targets := rfl
    rw [hstep, ih, List.map_cons, List.mem_cons, Function.update_apply]
    by_cases hid : id = target.1
    · simp [hid]
    · simp [hid]

/-- The SETs of a batch, at the records of the collection and elsewhere. -/
theorem foldl_set_record (hc : validCollectionName c = true) (targets : List (String × Dict)) :
    ∀ (s : Keys) (old : String → Option Dict),
      (∀ id, s (recordKey run c id) = (old id).map .text) → ∀ id,
      targets.foldl (fun s t => s.set (recordKey run c t.1) t.2) s (recordKey run c id) =
        (putAll old targets id).map .text := by
  induction targets with
  | nil => exact fun s old h => h
  | cons target targets ih =>
    intro s old h
    refine ih _ (Function.update old target.1 (some target.2)) fun id => ?_
    dsimp only
    by_cases hid : id = target.1
    · rw [hid, Keyspace.set_same, Function.update_self]
      rfl
    · have hne : recordKey run c id ≠ recordKey run c target.1 :=
        Place.key_ne (p := .record run c id) (q := .record run c target.1) hc hc (by simpa using hid)
      rw [Keyspace.set_other hne, Function.update_of_ne hid]
      exact h id

theorem foldl_set_other {key : String} (targets : List (String × Dict))
    (hkey : ∀ id, key ≠ recordKey run c id) (s : Keys) :
    targets.foldl (fun s t => s.set (recordKey run c t.1) t.2) s key = s key := by
  induction targets generalizing s with
  | nil => rfl
  | cons target targets ih =>
    rw [List.foldl_cons, ih]
    exact Keyspace.set_other (hkey target.1) _

/-- STEP: `stash_batch`. -/
theorem stashBatch_keeps (ttl : ℕ+) (h : Keeps s.keys run pad)
    (hc : validCollectionName c = true) (targets : List (String × Dict)) :
    ∃ t, stashBatch ttl s run c targets = .ok t ∧
      Keeps t.keys run (pad.change c (putAll (pad c) targets)) ∧ Frame run s.keys t.keys := by
  by_cases hnone : targets = []
  · refine ⟨s, by simp [stashBatch, checkName_ok hc, hnone], ?_, Frame.refl run s.keys⟩
    have hsame : pad.change c (putAll (pad c) targets) = pad := by
      rw [hnone]
      exact Function.update_eq_self c pad
    rwa [hsame]
  · obtain ⟨ids, hids, -, hmem⟩ := h.index c hc
    obtain ⟨cs, hcs, -, hnamed, hcover⟩ := h.collections
    have hindexKey : ∀ id, indexKey run c ≠ recordKey run c id := fun id =>
      Place.key_ne (p := .index run c) (q := .record run c id) hc hc (by simp)
    have hcollectionsKey : ∀ id, collectionsKey run ≠ recordKey run c id := fun id =>
      Place.key_ne (p := .collections run) (q := .record run c id) trivial hc (by simp)
    have hkeys : collectionsKey run ≠ indexKey run c :=
      Place.key_ne (p := .collections run) (q := .index run c) trivial hc (by simp)
    -- the SETs, then the two SADDs; an EXPIRE leaves every value as it is
    let s₁ := targets.foldl (fun s t => s.set (recordKey run c t.1) t.2 ttl) s
    have hs₁ : s₁.keys =
        targets.foldl (fun s t => s.set (recordKey run c t.1) t.2) s.keys :=
      Clocked.keys_foldl (fun _ t => Clocked.keys_set t.2 ttl) targets
    have hother₁ : ∀ key, (∀ id, key ≠ recordKey run c id) → s₁.keys key = s.keys key :=
      fun key hkey => (congrFun hs₁ key).trans (foldl_set_other targets hkey s.keys)
    obtain ⟨s₂, hs₂, hother₂, ids', hids', hnodup', hmem'⟩ := Clocked.sadd_some
      ((Keyspace.smembers_congr (hother₁ _ hindexKey)).trans hids) (targets.map Prod.fst)
    have hcs₂ : (s₂.expire (indexKey run c) ttl).keys.smembers (collectionsKey run) = some cs := by
      rw [Clocked.keys_expire, ← hcs]
      exact Keyspace.smembers_congr ((hother₂ _ hkeys).trans (hother₁ _ hcollectionsKey))
    obtain ⟨s₃, hs₃, hother₃, cs', hcs', hnodupcs', hmemcs'⟩ := Clocked.sadd_some hcs₂ [c]
    simp only [Clocked.keys_expire] at hother₃
    refine ⟨s₃.expire (collectionsKey run) ttl, ?_, ?_⟩
    · simp only [stashBatch, checkName_ok hc, ok_bind, if_neg hnone]
      change (typed (s₁.sadd (indexKey run c) (targets.map Prod.fst)) >>= _) = _
      simp only [hs₂, hs₃, typed, ok_bind]
      rfl
    rw [Clocked.keys_expire]
    refine h.change hc (fun key hrecord hindex hcollections => ?_) (fun id => ?_)
      ⟨ids', ?_, hnodup', fun id => ?_⟩ ⟨cs', hcs', hnodupcs', fun c' hc' => ?_, fun c' id hid => ?_⟩
    · rw [hother₃ key hcollections, hother₂ key hindex]
      exact hother₁ key hrecord
    · rw [hother₃ _ (hcollectionsKey id).symm, hother₂ _ (hindexKey id).symm, hs₁]
      exact foldl_set_record hc targets s.keys (pad c) (fun id => h.record c id hc) id
    · exact (Keyspace.smembers_congr (hother₃ _ hkeys.symm)).trans hids'
    · exact (hmem' id).trans ((or_congr_left (hmem id)).trans (isSome_putAll ..).symm)
    · rcases (hmemcs' c').mp hc' with hold | hnew
      · exact hnamed c' hold
      · exact List.mem_singleton.mp hnew ▸ hc
    · refine (hmemcs' c').mpr ?_
      by_cases heq : c' = c
      · exact .inr (heq ▸ List.mem_singleton_self c)
      · rw [Pad.change, Function.update_of_ne heq] at hid
        exact .inl (hcover c' id hid)

/-- The keys a batch writes. -/
def written (run : RunId) (c : String) (targets : List (String × Dict)) : List String :=
  targets.map (fun t => recordKey run c t.1) ++ [indexKey run c, collectionsKey run]

theorem foldl_set_deadlines {ttl : ℕ+} (targets : List (String × Dict)) {key : String}
    {e : Expiring (Stored Dict String)}
    (h : (targets.foldl (fun s t => s.set (recordKey run c t.1) t.2 ttl) s).entries key = some e) :
    (e.deadline = some (s.now + ttl) ∧ key ∈ targets.map fun t => recordKey run c t.1) ∨
      (s.entries key = some e ∧ key ∉ targets.map fun t => recordKey run c t.1) := by
  induction targets generalizing s with
  | nil => exact .inr ⟨h, List.not_mem_nil⟩
  | cons target targets ih =>
    rw [List.map_cons, List.mem_cons]
    rcases ih h with ⟨hdue, hmem⟩ | ⟨hentry, hmem⟩
    · exact .inl ⟨hdue, .inr hmem⟩
    · rcases Clocked.entries_set hentry with ⟨hdue, hkey⟩ | ⟨hold, hkey⟩
      · exact .inl ⟨hdue, .inl hkey⟩
      · exact .inr ⟨hold, fun hcons => hcons.elim hkey hmem⟩

theorem now_foldl_set {ttl : ℕ+} (targets : List (String × Dict)) :
    (targets.foldl (fun s t => s.set (recordKey run c t.1) t.2 ttl) s).now = s.now := by
  induction targets generalizing s with
  | nil => rfl
  | cons target targets ih => exact ih

theorem typed_eq_ok_iff {α : Type} {o : Option α} {a : α} : typed o = .ok a ↔ o = some a := by
  cases o with
  | none => exact ⟨fun h => (nomatch h), fun h => (nomatch h)⟩
  | some b => exact ⟨fun h => congrArg some (Except.ok.inj h), fun h => congrArg _ (Option.some.inj h)⟩

/-- What a batch writes is there for the TTL; the other keys are left alone. -/
theorem stashBatch_deadlines {ttl : ℕ+} {targets : List (String × Dict)} (hnone : targets ≠ [])
    (h : stashBatch ttl s run c targets = .ok t) {key : String}
    {e : Expiring (Stored Dict String)} (hkey : t.entries key = some e) :
    (e.deadline = some (s.now + ttl) ∧ key ∈ written run c targets) ∨
      (s.entries key = some e ∧ key ∉ written run c targets) := by
  simp only [stashBatch, if_neg hnone] at h
  obtain ⟨-, -, h⟩ := bind_eq_ok_iff.mp h
  obtain ⟨s₂, hs₂, h⟩ := bind_eq_ok_iff.mp h
  obtain ⟨s₃, hs₃, h⟩ := bind_eq_ok_iff.mp h
  obtain rfl := Except.ok.inj h
  obtain ⟨keys₂, -, rfl⟩ := Option.map_eq_some_iff.mp (typed_eq_ok_iff.mp hs₂)
  obtain ⟨keys₃, -, rfl⟩ := Option.map_eq_some_iff.mp (typed_eq_ok_iff.mp hs₃)
  have hnow : (targets.foldl (fun s t => s.set (recordKey run c t.1) t.2 ttl) s).now = s.now :=
    now_foldl_set targets
  rcases Clocked.entries_put_expire hkey with ⟨hdue, hmem⟩ | ⟨hentry, hcollections⟩
  · exact .inl ⟨hnow ▸ hdue, by simp [written, hmem]⟩
  rcases Clocked.entries_put_expire hentry with ⟨hdue, hmem⟩ | ⟨hentry, hindex⟩
  · exact .inl ⟨hnow ▸ hdue, by simp [written, hmem]⟩
  rcases foldl_set_deadlines targets hentry with ⟨hdue, hmem⟩ | ⟨hold, hmem⟩
  · exact .inl ⟨hdue, List.mem_append_left _ hmem⟩
  · refine .inr ⟨hold, fun hwritten => ?_⟩
    rcases List.mem_append.mp hwritten with hrecord | hset
    · exact hmem hrecord
    · simp [hindex, hcollections] at hset

theorem get_ok (h : Keeps s.keys run pad) (hc : validCollectionName c = true) (id : String) :
    get s run c id = .ok (pad c id) := by
  rw [get, checkName_ok hc, ok_bind, Keyspace.get_eq_iff.mpr (h.record c id hc), typed]

theorem listIds_ok (h : Keeps s.keys run pad) (hc : validCollectionName c = true) :
    ∃ ids, listIds s run c = .ok ids ∧ s.keys.smembers (indexKey run c) = some ids ∧
      Lists ids fun id => (pad c id).isSome := by
  obtain ⟨ids, hids, hlists⟩ := h.index c hc
  exact ⟨ids, by rw [listIds, checkName_ok hc, ok_bind, hids, typed], hids, hlists⟩

theorem fetchAll_ok (h : Keeps s.keys run pad) (hc : validCollectionName c = true) (ids : List String) :
    fetchAll s run c ids = .ok (ids.filterMap fun id => (pad c id).map fun record => (id, record)) := by
  induction ids with
  | nil => rfl
  | cons id ids ih =>
    rw [fetchAll, get_ok h hc, ok_bind, ih, ok_bind]
    cases hpad : pad c id with
    | none => rw [List.filterMap_cons_none (by rw [hpad]; rfl)]; rfl
    | some record => rw [List.filterMap_cons_some (b := (id, record)) (by rw [hpad]; rfl)]; rfl

/-- STEP: `list_records`. -/
theorem listRecords_ok (h : Keeps s.keys run pad) (hc : validCollectionName c = true) :
    ∃ records, listRecords s run c = .ok records ∧ (records.map Prod.fst).Nodup ∧
      ∀ id record, (id, record) ∈ records ↔ pad c id = some record := by
  obtain ⟨ids, hids, -, hnodup, hmem⟩ := listIds_ok h hc
  refine ⟨_, by rw [listRecords, hids, ok_bind, fetchAll_ok h hc], ?_, fun id record => ?_⟩
  · have hall : (ids.filterMap fun id => (pad c id).map fun record => (id, record)).map Prod.fst =
        ids := by
      rw [List.map_filterMap]
      refine (List.filterMap_congr fun id hid => ?_).trans List.filterMap_some
      obtain ⟨record, hrecord⟩ := Option.isSome_iff_exists.mp ((hmem id).mp hid)
      rw [hrecord]
      rfl
    rw [hall]
    exact hnodup
  · rw [List.mem_filterMap]
    constructor
    · rintro ⟨other, -, hother⟩
      obtain ⟨_, hrecord, heq⟩ := Option.map_eq_some_iff.mp hother
      obtain ⟨rfl, rfl⟩ := Prod.mk.inj heq
      exact hrecord
    · intro hrecord
      exact ⟨id, (hmem id).mpr (Option.isSome_iff_exists.mpr ⟨record, hrecord⟩), by rw [hrecord]; rfl⟩

/-- STEP: `drop`. -/
theorem drop_keeps (h : Keeps s.keys run pad) (hc : validCollectionName c = true) (id : String) :
    ∃ t, drop s run c id = .ok (t, (pad c id).isSome) ∧
      Keeps t.keys run (pad.change c (Function.update (pad c) id none)) ∧
        Frame run s.keys t.keys := by
  obtain ⟨ids, hids, hnodup, hmem⟩ := h.index c hc
  obtain ⟨cs, hcs, hrest, hnamed, hcover⟩ := h.collections
  have hindexKey : ∀ id, indexKey run c ≠ recordKey run c id := fun id =>
    Place.key_ne (p := .index run c) (q := .record run c id) hc hc (by simp)
  have hcollectionsKey : collectionsKey run ≠ recordKey run c id :=
    Place.key_ne (p := .collections run) (q := .record run c id) trivial hc (by simp)
  have hkeys : collectionsKey run ≠ indexKey run c :=
    Place.key_ne (p := .collections run) (q := .index run c) trivial hc (by simp)
  have hids₁ : (s.delete (recordKey run c id)).keys.smembers (indexKey run c) = some ids := by
    rw [Clocked.keys_delete]
    exact (Keyspace.smembers_congr (Keyspace.delete_other (hindexKey id))).trans hids
  obtain ⟨t, ht, hother, ids', hids', hnodup', hmem'⟩ := Clocked.srem_some hids₁ id
  simp only [Clocked.keys_delete] at hother
  refine ⟨t, ?_, h.change hc (fun key hrecord hindex hcollections => ?_) (fun id' => ?_)
    ⟨ids', hids', hnodup' hnodup, fun id' => ?_⟩ ⟨cs, ?_, hrest, hnamed, fun c' id' hid => ?_⟩⟩
  · simp only [drop, checkName_ok hc, ok_bind, ht, typed, h.record c id hc]
    cases pad c id <;> rfl
  · rw [hother key hindex]
    exact Keyspace.delete_other (hrecord id)
  · rw [hother _ (hindexKey id').symm]
    by_cases heq : id' = id
    · rw [heq, Keyspace.delete_same, Function.update_self]
      rfl
    · have hne : recordKey run c id' ≠ recordKey run c id :=
        Place.key_ne (p := .record run c id') (q := .record run c id) hc hc (by simpa using heq)
      rw [Keyspace.delete_other hne, Function.update_of_ne heq]
      exact h.record c id' hc
  · refine (hmem' id').trans ((and_congr_left' (hmem id')).trans ?_)
    by_cases heq : id' = id
    · simp [heq]
    · simp [heq]
  · rw [← hcs]
    exact Keyspace.smembers_congr
      ((hother _ hkeys).trans (Keyspace.delete_other hcollectionsKey))
  · by_cases heq : c' = c
    · rw [heq, Pad.change, Function.update_self, Function.update_apply] at hid
      split at hid
      · cases hid
      · exact heq ▸ hcover c id' hid
    · rw [Pad.change, Function.update_of_ne heq] at hid
      exact hcover c' id' hid

/-- STEP: `clear_collection`. -/
theorem clearCollection_keeps (h : Keeps s.keys run pad) (hc : validCollectionName c = true) :
    ∃ t ids, clearCollection s run c = .ok (t, ids.length) ∧
      Lists ids (fun id => (pad c id).isSome) ∧
      Keeps t.keys run (pad.change c fun _ => none) ∧ Frame run s.keys t.keys := by
  obtain ⟨ids, hlist, hids, hlists⟩ := listIds_ok h hc
  by_cases hnone : ids = []
  · refine ⟨s, ids, by simp [clearCollection, hlist, ok_bind, hnone]; rfl, hlists, ?_,
      Frame.refl run s.keys⟩
    have hempty : pad c = fun _ => none := funext fun id =>
      Option.not_isSome_iff_eq_none.mp fun hid => by
        have hmem := (hlists.2 id).mpr hid
        rw [hnone] at hmem
        cases hmem
    have hsame : pad.change c (fun _ => none) = pad := by
      rw [← hempty]
      exact Function.update_eq_self c pad
    rwa [hsame]
  · obtain ⟨cs, hcs, hrest, hnamed, hcover⟩ := h.collections
    have hkeys : collectionsKey run ≠ indexKey run c :=
      Place.key_ne (p := .collections run) (q := .index run c) trivial hc (by simp)
    -- the records and the index go, then the name
    let s₁ := ids.foldl (fun s id => s.delete (recordKey run c id)) s
    have hs₁ : ∀ key, s₁.keys key = if key ∈ ids.map (recordKey run c) then none else s.keys key :=
      Clocked.keys_foldl_delete (recordKey run c) ids
    have hother₁ : ∀ key, (∀ id, key ≠ recordKey run c id) → s₁.keys key = s.keys key := by
      intro key hrecord
      refine (hs₁ key).trans (if_neg fun hmem => ?_)
      obtain ⟨id, -, hkey⟩ := List.mem_map.mp hmem
      exact hrecord id hkey.symm
    have hcs₁ : (s₁.delete (indexKey run c)).keys.smembers (collectionsKey run) = some cs := by
      rw [Clocked.keys_delete, ← hcs]
      exact Keyspace.smembers_congr ((Keyspace.delete_other hkeys).trans
        (hother₁ _ fun id => Place.key_ne (p := .collections run) (q := .record run c id)
          trivial hc (by simp)))
    obtain ⟨t, ht, hother, cs', hcs', hnodup', hmem'⟩ := Clocked.srem_some hcs₁ c
    simp only [Clocked.keys_delete] at hother
    refine ⟨t, ids, ?_, hlists, h.change hc (fun key hrecord hindex hcollections => ?_)
      (fun id => ?_) ⟨[], ?_, List.nodup_nil, by simp⟩
      ⟨cs', hcs', hnodup' hrest, fun c' hc' => hnamed c' ((hmem' c').mp hc').1,
        fun c' id hid => ?_⟩⟩
    · simp only [clearCollection, hlist, ok_bind, if_neg hnone]
      change (typed ((s₁.delete (indexKey run c)).srem (collectionsKey run) c) >>=
        fun s => .ok (s, ids.length)) = _
      rw [ht, typed, ok_bind]
    · rw [hother key hcollections]
      exact (Keyspace.delete_other hindex).trans (hother₁ key hrecord)
    · have hcollectionsKey : recordKey run c id ≠ collectionsKey run :=
        Place.key_ne (p := .record run c id) (q := .collections run) hc trivial (by simp)
      have hindexKey : recordKey run c id ≠ indexKey run c :=
        Place.key_ne (p := .record run c id) (q := .index run c) hc hc (by simp)
      rw [hother _ hcollectionsKey, Keyspace.delete_other hindexKey]
      refine (hs₁ _).trans ?_
      split
      · rfl
      · rw [h.record c id hc]
        cases hpad : pad c id with
        | none => rfl
        | some record =>
          have hmem := (hlists.2 id).mpr (Option.isSome_iff_exists.mpr ⟨record, hpad⟩)
          exact absurd (List.mem_map_of_mem hmem) ‹_›
    · rw [Keyspace.smembers, hother _ hkeys.symm, Keyspace.delete_same]
    · have heq : c' ≠ c := by
        rintro rfl
        rw [Pad.change, Function.update_self] at hid
        cases hid
      rw [Pad.change, Function.update_of_ne heq] at hid
      exact (hmem' c').mpr ⟨hcover c' id hid, heq⟩

/-- The records without those of some collections. -/
def Pad.without (pad : Pad) (cs : List String) : Pad := fun c => if c ∈ cs then fun _ => none else pad c

/-- The loop of `clear_run`, over collections each named once. -/
theorem clearEach_keeps {cs : List String} (hnodup : cs.Nodup)
    (hnamed : ∀ c ∈ cs, validCollectionName c = true) : ∀ {s : Redis} {pad : Pad},
    Keeps s.keys run pad → ∃ t entries, clearEach run cs s = .ok (t, entries.length) ∧
      Lists entries (fun entry : String × String =>
        entry.1 ∈ cs ∧ (pad entry.1 entry.2).isSome) ∧
      Keeps t.keys run (pad.without cs) ∧ Frame run s.keys t.keys := by
  induction cs with
  | nil =>
    intro s pad h
    have hpad : pad.without [] = pad := by
      funext c
      simp [Pad.without]
    exact ⟨s, [], rfl, ⟨List.nodup_nil, by simp⟩, hpad.symm ▸ h, Frame.refl run s.keys⟩
  | cons c cs ih =>
    intro s pad h
    obtain ⟨hnot, hnodup⟩ := List.nodup_cons.mp hnodup
    obtain ⟨t, ids, ht, ⟨hids, hmem⟩, hkeeps, hframe⟩ :=
      clearCollection_keeps h (hnamed c List.mem_cons_self)
    obtain ⟨u, entries, hu, ⟨hentries, hmem'⟩, hkeeps', hframe'⟩ :=
      ih hnodup (fun c' hc' => hnamed c' (List.mem_cons_of_mem _ hc')) hkeeps
    have hpad : (pad.change c fun _ => none).without cs = pad.without (c :: cs) := by
      funext c'
      by_cases hc' : c' ∈ cs
      · simp [Pad.without, hc']
      · by_cases heq : c' = c
        · simp [Pad.without, Pad.change, heq]
        · simp [Pad.without, Pad.change, hc', heq]
    refine ⟨u, ids.map (fun id => (c, id)) ++ entries, ?_, ⟨?_, fun entry => ?_⟩, hpad ▸ hkeeps',
      hframe.trans hframe'⟩
    · rw [clearEach, ht, ok_bind]
      dsimp only
      rw [hu, ok_bind, List.length_append, List.length_map]
      rfl
    · refine List.Nodup.append (hids.map fun a b h => (Prod.mk.inj h).2) hentries ?_
      intro entry hfirst hrest
      obtain ⟨id, -, rfl⟩ := List.mem_map.mp hfirst
      exact hnot ((hmem' (c, id)).mp hrest).1
    · obtain ⟨c', id⟩ := entry
      rw [List.mem_append, hmem', List.mem_map]
      dsimp only
      rw [List.mem_cons]
      by_cases heq : c' = c
      · subst heq
        simp [hnot, hmem id]
      · simp [heq, Ne.symm heq, Pad.change]

/-- STEP: `clear_run`. -/
theorem clearRun_keeps (h : Keeps s.keys run pad) : ∃ t entries,
    clearRun s run = .ok (t, entries.length) ∧
      Lists entries (fun entry : String × String => (pad entry.1 entry.2).isSome) ∧
      Keeps t.keys run (fun _ _ => none) ∧ Frame run s.keys t.keys := by
  obtain ⟨cs, hcs, hnodup, hnamed, hcover⟩ := h.collections
  obtain ⟨t, entries, ht, ⟨hentries, hmem⟩, hkeeps, hframe⟩ := clearEach_keeps hnodup hnamed h
  have hpad : pad.without cs = fun _ _ => none := by
    funext c id
    by_cases hc : c ∈ cs
    · simp [Pad.without, hc]
    · rw [Pad.without, if_neg hc]
      exact Option.not_isSome_iff_eq_none.mp fun hid => hc (hcover c id hid)
  rw [hpad] at hkeeps
  have hother : ∀ key, key ≠ collectionsKey run →
      t.keys.delete (collectionsKey run) key = t.keys key := fun key hne => Keyspace.delete_other hne
  refine ⟨t.delete (collectionsKey run), entries, ?_, ⟨hentries, fun entry => ?_⟩,
    ?_, ?_⟩
  · simp only [clearRun, hcs, typed, ok_bind, ht]
    rfl
  · refine (hmem entry).trans (and_iff_right_of_imp fun hid => ?_)
    exact hcover entry.1 entry.2 hid
  · rw [Clocked.keys_delete]
    refine ⟨hkeeps.named, fun c id hc => ?_, fun c hc => ?_, [], ?_, List.nodup_nil, by simp, by simp⟩
    · refine (hother _ ?_).trans (hkeeps.record c id hc)
      exact Place.key_ne (p := .record run c id) (q := .collections run) hc trivial (by simp)
    · obtain ⟨ids, hids, hlists⟩ := hkeeps.index c hc
      refine ⟨ids, (Keyspace.smembers_congr (hother _ ?_)).trans hids, hlists⟩
      exact Place.key_ne (p := .index run c) (q := .collections run) hc trivial (by simp)
    · rw [Keyspace.smembers, Keyspace.delete_same]
  · rw [Clocked.keys_delete]
    exact hframe.trans fun key hkey => hother key (hkey (.collections run) trivial rfl)

end Calls

/-! ### All runs -/

/-- The store, and beside it the records of every run as the calls so far leave them. -/
structure Twin where
  store : Redis
  pads : RunId → Pad

/-- No call yet. -/
def Twin.empty : Twin := ⟨⟨0, fun _ => none⟩, fun _ _ _ => none⟩

/-- A call on a store of some TTL, or time that passes. -/
inductive Action where
  | call (ttl : ℕ+) (call : Call)
  | wait (time : ℕ)

/-- One step. What is refused changes nothing; the records know no time. -/
def twinStep (s : Twin) : Action → Option Twin
  | .call ttl call => some (match perform ttl s.store call with
    | .ok (t, _) => ⟨t, Function.update s.pads call.run ((s.pads call.run).after call)⟩
    | .error _ => s)
  | .wait time => some { s with store := s.store.wait time }

/-- THE CONDITION: no key runs out while time passes. -/
def Unexpired (s : Twin) : Action → Prop
  | .call .. => True
  | .wait time => ∀ key, s.store.keys key ≠ none → (s.store.wait time).keys key ≠ none

/-- INVARIANT: the keys hold the records of every run, and there are no other keys. -/
structure Twin.Sound (s : Twin) : Prop where
  keeps : ∀ run, Keeps s.store.keys run (s.pads run)
  only : ∀ key, s.store.keys key ≠ none → ∃ place : Place, place.Named ∧ key = place.key

/-- A call is refused just for the name of its collection, and else gets the answer of the records
    as they are. -/
def Answered (s : Twin) : Action → Prop
  | .call ttl call => match perform ttl s.store call with
    | .ok (_, answer) => call.Named ∧ (s.pads call.run).Answers call answer
    | .error refusal => ∃ c ∈ call.collection, validCollectionName c = false ∧ refusal = .badName c
  | .wait _ => True

/-- SPEC: the step answers what the records say, and the keys hold just the records afterwards. -/
def Faithful (s : Twin) (a : Action) (t : Twin) : Prop := Answered s a ∧ t.Sound

theorem sound_empty : Twin.empty.Sound where
  keeps run :=
    { named := fun c id hid => by cases hid
      record := fun c id hc => rfl
      index := fun c hc => ⟨[], rfl, List.nodup_nil, fun id => by simp [Twin.empty]⟩
      collections := ⟨[], rfl, List.nodup_nil, by simp, fun c id hid => by cases hid⟩ }
  only key hkey := absurd rfl hkey

/-- A call that names a collection names a valid one, or is refused for it. -/
theorem perform_refused (ttl : ℕ+) {s : Redis} {call : Call} (h : ¬ call.Named) :
    ∃ c ∈ call.collection, validCollectionName c = false ∧
      perform ttl s call = .error (.badName c) := by
  obtain ⟨c, hc, hname⟩ : ∃ c ∈ call.collection, ¬ validCollectionName c = true := by
    simpa [Call.Named] using h
  have hbad : checkName c = .error (.badName c) := by rw [checkName, if_neg hname]
  refine ⟨c, hc, by simpa using hname, ?_⟩
  cases call with
  | clearRun => cases hc
  | stashBatch =>
    obtain rfl := Option.some.inj hc
    simp only [perform, stashBatch, hbad]
    rfl
  | get =>
    obtain rfl := Option.some.inj hc
    simp only [perform, get, hbad]
    rfl
  | listIds =>
    obtain rfl := Option.some.inj hc
    simp only [perform, listIds, hbad]
    rfl
  | listRecords =>
    obtain rfl := Option.some.inj hc
    simp only [perform, listRecords, listIds, hbad]
    rfl
  | drop =>
    obtain rfl := Option.some.inj hc
    simp only [perform, drop, hbad]
    rfl
  | count =>
    obtain rfl := Option.some.inj hc
    simp only [perform, count, hbad]
    rfl
  | clearCollection =>
    obtain rfl := Option.some.inj hc
    simp only [perform, clearCollection, listIds, hbad]
    rfl

/-- A call that names no bad collection is answered, and keeps the records of its run. -/
theorem perform_keeps (ttl : ℕ+) {s : Redis} {pad : Pad} {call : Call}
    (h : Keeps s.keys call.run pad) (hnamed : call.Named) :
    ∃ u answer, perform ttl s call = .ok (u, answer) ∧
      Keeps u.keys call.run (pad.after call) ∧ Frame call.run s.keys u.keys ∧
        pad.Answers call answer := by
  cases call with
  | stashBatch run c targets =>
    have hkept : Keeps s.keys run pad := h
    obtain ⟨u, hu, hkeeps, hframe⟩ := stashBatch_keeps ttl hkept (hnamed c rfl) targets
    exact ⟨u, .stashed, by rw [perform, hu]; rfl, hkeeps, hframe, trivial⟩
  | get run c id =>
    have hkept : Keeps s.keys run pad := h
    exact ⟨s, .record (pad c id), by rw [perform, get_ok hkept (hnamed c rfl)]; rfl, hkept,
      Frame.refl run s.keys, rfl⟩
  | listIds run c =>
    have hkept : Keeps s.keys run pad := h
    obtain ⟨ids, hids, -, hlists⟩ := listIds_ok hkept (hnamed c rfl)
    exact ⟨s, .ids ids, by rw [perform, hids]; rfl, hkept, Frame.refl run s.keys, hlists⟩
  | listRecords run c =>
    have hkept : Keeps s.keys run pad := h
    obtain ⟨records, hrecords, hlists⟩ := listRecords_ok hkept (hnamed c rfl)
    exact ⟨s, .records records, by rw [perform, hrecords]; rfl, hkept, Frame.refl run s.keys, hlists⟩
  | drop run c id =>
    have hkept : Keeps s.keys run pad := h
    obtain ⟨u, hu, hkeeps, hframe⟩ := drop_keeps hkept (hnamed c rfl) id
    exact ⟨u, .existed _, by rw [perform, hu]; rfl, hkeeps, hframe, rfl⟩
  | count run c =>
    have hkept : Keeps s.keys run pad := h
    obtain ⟨ids, hids, hlists⟩ := hkept.index c (hnamed c rfl)
    refine ⟨s, .number ids.length, ?_, hkept, Frame.refl run s.keys, ids, hlists, rfl⟩
    rw [perform, count, checkName_ok (hnamed c rfl), ok_bind, hids, typed, ok_bind]
    rfl
  | clearCollection run c =>
    have hkept : Keeps s.keys run pad := h
    obtain ⟨u, ids, hu, hlists, hkeeps, hframe⟩ := clearCollection_keeps hkept (hnamed c rfl)
    exact ⟨u, .number ids.length, by rw [perform, hu]; rfl, hkeeps, hframe, ids, hlists, rfl⟩
  | clearRun run =>
    have hkept : Keeps s.keys run pad := h
    obtain ⟨u, entries, hu, hlists, hkeeps, hframe⟩ := clearRun_keeps hkept
    exact ⟨u, .number entries.length, by rw [perform, hu]; rfl, hkeeps, hframe, entries, hlists, rfl⟩

/-- A call leaves the keys of its own run and of the others. -/
theorem Frame.only {s t : Keys} {run : RunId} (h : Frame run s t)
    (hs : ∀ key, s key ≠ none → ∃ place : Place, place.Named ∧ key = place.key) (key : String)
    (hkey : t key ≠ none) : ∃ place : Place, place.Named ∧ key = place.key := by
  by_contra hnone
  refine hnone (hs key ?_)
  rwa [← h key fun place hnamed _ heq => hnone ⟨place, hnamed, heq⟩]

/-- STEP: a call is answered faithfully and keeps the records of every run. -/
theorem sound_call {s t : Twin} {ttl : ℕ+} {call : Call} (hs : s.Sound)
    (h : twinStep s (.call ttl call) = some t) : Faithful s (.call ttl call) t := by
  obtain rfl := Option.some.inj h
  by_cases hnamed : call.Named
  case neg =>
    obtain ⟨c, hc, hname, hrefused⟩ := perform_refused ttl (s := s.store) hnamed
    rw [Faithful, Answered, hrefused]
    exact ⟨⟨c, hc, hname, rfl⟩, hs⟩
  case pos =>
    obtain ⟨u, answer, hperform, hkeeps, hframe, hanswers⟩ :=
      perform_keeps ttl (hs.keeps call.run) hnamed
    rw [Faithful, Answered, hperform]
    refine ⟨⟨hnamed, hanswers⟩, fun run => ?_, hframe.only hs.only⟩
    dsimp only
    by_cases hrun : run = call.run
    · rw [hrun, Function.update_self]
      exact hkeeps
    · rw [Function.update_of_ne hrun]
      exact (hs.keeps run).frame hframe hrun

/-- STEP: time in which no key runs out changes nothing. -/
theorem sound_wait {s t : Twin} {time : ℕ} (hs : s.Sound) (hok : Unexpired s (.wait time))
    (h : twinStep s (.wait time) = some t) : Faithful s (.wait time) t := by
  obtain rfl := Option.some.inj h
  have hkeys : (s.store.wait time).keys = s.store.keys := by
    funext key
    by_cases hkey : s.store.keys key = none
    · by_contra hne
      exact hne (Clocked.keys_wait fun hnone => hne (hnone.trans hkey.symm))
    · exact Clocked.keys_wait (hok key hkey)
  refine ⟨trivial, fun run => ?_, fun key hkey => ?_⟩
  · dsimp only
    rw [hkeys]
    exact hs.keeps run
  · rw [hkeys] at hkey
    exact hs.only key hkey

theorem faithful_step (s : Twin) (a : Action) (t : Twin) (hs : s.Sound) (hok : Unexpired s a)
    (h : twinStep s a = some t) : Faithful s a t := by
  cases a with
  | call ttl call => exact sound_call hs h
  | wait time => exact sound_wait hs hok h

/-- RUN: whatever calls are made for whatever runs, and however long it takes them, as long as no key
    runs out none of them meets a key of another kind; each is answered as if every run had a map of
    its own, under any names and ids, and leaves the keys of the maps and no others. -/
theorem faithful_run (as : List Action) (h : Guarded twinStep Unexpired .empty as) :
    EveryStep twinStep Faithful .empty as :=
  everyStep_of_guarded (fun s a t hs hok h => (faithful_step s a t hs hok h).2) faithful_step
    sound_empty h

/-- Where every deadline is later, no key runs out. -/
theorem unexpired_of_deadlines {s : Twin} {time : ℕ}
    (h : ∀ key e, s.store.entries key = some e → e.live (s.store.now + time) = true) :
    Unexpired s (.wait time) := by
  intro key hkey
  obtain ⟨value, hvalue⟩ := Option.ne_none_iff_exists'.mp hkey
  obtain ⟨e, he, hv⟩ := Expiries.get_eq_some_iff.mp hvalue
  have hentry := (Expiries.entry_eq_some_iff.mp he).1
  have hlater : (s.store.wait time).keys key = some value := Expiries.get_eq_some_iff.mpr
    ⟨e, Expiries.entry_eq_some_iff.mpr ⟨hentry, h key e hentry⟩, hv⟩
  exact hlater ▸ Option.some_ne_none value

def first : RunId := ⟨"r1", by decide⟩
def second : RunId := ⟨"r2", by decide⟩

/-- A record is stashed again before its TTL ends, read after it would have, and cleared; another run
    has one under the same name, and a name is refused. -/
def restashed : List Action :=
  [.call 60 (.stashBatch first "jobs" [("a:1", [])]), .wait 40,
   .call 60 (.stashBatch first "jobs" [("a:1", [("title", .str "Cook")])]),
   .call 60 (.stashBatch second "jobs" [("a:1", [])]), .wait 40,
   .call 60 (.get first "jobs" "a:1"), .call 60 (.count first "Jobs"), .call 60 (.clearRun first),
   .call 60 (.listRecords second "jobs")]

/-- The state after some steps of it. -/
def reached (steps : ℕ) : Twin := (runFrom twinStep .empty (restashed.take steps)).getD .empty

theorem unexpired_restashed : Guarded twinStep Unexpired .empty restashed := by
  have hnone (t : String × Dict) : [t] ≠ [] := List.cons_ne_nil t []
  have hfirst : stashBatch 60 (reached 0).store first "jobs" [("a:1", [])] = .ok (reached 1).store :=
    rfl
  have hagain : stashBatch 60 (reached 2).store first "jobs" [("a:1", [("title", .str "Cook")])] =
    .ok (reached 3).store := rfl
  have hsecond : stashBatch 60 (reached 3).store second "jobs" [("a:1", [])] =
    .ok (reached 4).store := rfl
  refine .cons (t := reached 1) rfl trivial (.cons (t := reached 2) rfl
    (unexpired_of_deadlines fun key e he => ?_) (.cons (t := reached 3) rfl trivial
      (.cons (t := reached 4) rfl trivial (.cons rfl
        (unexpired_of_deadlines fun key e he => ?_) ?_))))
  · rcases stashBatch_deadlines (hnone _) hfirst he with ⟨hdue, -⟩ | ⟨hold, -⟩
    · rw [Expiring.live, hdue]
      decide
    · cases hold
  · rcases stashBatch_deadlines (hnone _) hsecond he with ⟨hdue, -⟩ | ⟨he, -⟩
    · rw [Expiring.live, hdue]
      decide
    rcases stashBatch_deadlines (hnone _) hagain he with ⟨hdue, -⟩ | ⟨he, hother⟩
    · rw [Expiring.live, hdue]
      decide
    rcases stashBatch_deadlines (hnone _) hfirst he with ⟨-, hmem⟩ | ⟨hold, -⟩
    · exact absurd hmem hother
    · cases hold
  · exact .cons rfl trivial (.cons rfl trivial (.cons rfl trivial (.cons rfl trivial trivial)))

/-- `faithful_run` for it, and what the later calls answer. -/
theorem faithful_restashed : EveryStep twinStep Faithful .empty restashed ∧
    (perform 60 (reached 5).store (.get first "jobs" "a:1")).map Prod.snd =
      .ok (.record (some [("title", .str "Cook")])) ∧
    (perform 60 (reached 6).store (.count first "Jobs")).map Prod.snd = .error (.badName "Jobs") ∧
    (perform 60 (reached 7).store (.clearRun first)).map Prod.snd = .ok (.number 1) ∧
    (perform 60 (reached 8).store (.listRecords second "jobs")).map Prod.snd =
      .ok (.records [("a:1", [])]) :=
  ⟨faithful_run restashed unexpired_restashed, rfl, rfl, rfl, rfl⟩

end LunaCore.Services.ScratchpadKeys
