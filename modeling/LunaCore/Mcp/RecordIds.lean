import LunaCore.Mcp.StashRecords

/-! Does `stash_records` take a list of ids in the same way with a dedup and without?

                    too short      as long      too long
    without dedup   soft error     taken        soft error
    with dedup      IndexError *   taken        taken

    Without a dedup `compute_target_ids` compares the lengths. With one the ids are first taken out
    at the survivors' places, and what it compares are the lists it was handed.
    (* or taken, where every record past the ids is a duplicate) -/

namespace LunaCore.Mcp.StashRecords
open LunaCore.Schemes LunaCore.Values LunaCore.Dedup LunaCore.Services.ScratchpadStore
open LunaCore.Services.Scratchpad (splitTargets)

/-- What a call gives back. -/
abbrev Outcome := Except Raised (Reply × Pad)

/-- The ids are refused with a soft error. -/
def Refuses (outcome : Outcome) : Prop :=
  ∃ ids records s, outcome = .ok (.error (lengthMessage ids records) none, s)

/-- The ids are indexed out of range. -/
def Crashes (outcome : Outcome) : Prop := outcome = .error .indexError

def SameWay (a b : Outcome) : Prop := (Refuses a ↔ Refuses b) ∧ (Crashes a ↔ Crashes b)

/-- The context without a dedup, and with one. -/
def CallContext.without (ctx : CallContext) : CallContext := { ctx with dedupChecker := none }

def CallContext.bound (repr : Json → String) (ctx : CallContext) (binding : StashDedupBinding) :
    CallContext := { ctx with dedupChecker := some (buildCallContextChecker repr binding) }

/-- The ids are none or as many as the records, where the call comes to them. -/
def IdsFit (repr : Json → String) (ctx : CallContext) (args : Args) : Prop :=
  ∀ q ids, ctx.inRun = true → requestOf repr args.dict = .ok q →
    schemaIssues args.floats ctx.recordSchema q.records = [] → q.recordIds = some ids →
      q.records = [] ∨ ids.length = q.records.length

variable {hashRecord : Dict → String} {repr : Json → String} {ttl : ℕ+}

/-! ### What is said of the lengths -/

/-- Texts that begin differently. -/
theorem append_ne {front front' : String} (n : ℕ) (hn : n ≤ front.toList.length)
    (hn' : n ≤ front'.toList.length) (h : front.toList.take n ≠ front'.toList.take n)
    (rest rest' : String) : front ++ rest ≠ front' ++ rest' := by
  intro heq
  have htake := congrArg (fun text => text.toList.take n) heq
  simp only [String.toList_append, List.take_append_of_le_length hn,
    List.take_append_of_le_length hn'] at htake
  exact h htake

theorem lengthMessage_eq (ids records : ℕ) : lengthMessage ids records =
    "record_ids length (" ++ (toString ids ++ (") does not match records length (" ++
      (toString records ++ ")"))) := by
  delta lengthMessage
  simp only [String.append_assoc]

theorem dictMessage_ne (index name : String) (ids records : ℕ) :
    "record at index " ++ index ++ " is " ++ name ++ ", expected dict" ≠
      lengthMessage ids records := by
  rw [lengthMessage_eq]
  simp only [String.append_assoc]
  exact append_ne 7 (by decide) (by decide) (by decide) _ _

theorem collectionMessage_ne (name : String) (ids records : ℕ) :
    "invalid collection name " ++ name ++ ": must match ^[a-z_][a-z0-9_]*$" ≠
      lengthMessage ids records := by
  rw [lengthMessage_eq]
  simp only [String.append_assoc]
  exact append_ne 1 (by decide) (by decide) (by decide) _ _

theorem targetIds_message {ids : RecordIds} {n m : ℕ} : ∀ {records : List Json} {index : ℕ},
    targetIds hashRecord ids index records ≠ .error (lengthMessage n m) := by
  intro records
  induction records with
  | nil => exact nofun
  | cons record records ih =>
    intro index h
    cases record with
    | obj fields =>
      rw [targetIds] at h
      exact ih (map_eq_error_iff.mp h)
    | _ => exact dictMessage_ne _ _ _ _ (Except.error.inj h)

theorem checkLength_ok_iff {records : List Json} {recordIds : RecordIds} :
    checkLength records recordIds = .ok () ↔
      ∀ ids, recordIds = some ids → ids.length = records.length := by
  cases recordIds with
  | none => exact iff_of_true rfl nofun
  | some ids => simp [checkLength]

theorem listIds_message {s : Pad} {collection : String} {n m : ℕ} :
    listIds repr s collection ≠ .error (lengthMessage n m) := by
  intro h
  have hname := map_eq_error_iff.mp h
  rw [checkCollectionName] at hname
  split at hname
  · cases hname
  · exact collectionMessage_ne _ _ _ (Except.error.inj hname)

variable (hashRecord) in
theorem computeTargetIds_message_iff {records : List Json} {ids : RecordIds} :
    (∃ n m, computeTargetIds hashRecord records ids = .error (lengthMessage n m)) ↔
      checkLength records ids ≠ .ok () := by
  rw [computeTargetIds]
  cases hlength : checkLength records ids with
  | error message =>
    refine iff_of_true ?_ (by simp)
    cases ids with
    | none => cases hlength
    | some ids =>
      rw [checkLength] at hlength
      split at hlength
      · cases hlength
      · obtain rfl := Except.error.inj hlength
        exact ⟨ids.length, records.length, rfl⟩
  | ok _ =>
    refine iff_of_false ?_ fun h => h rfl
    rintro ⟨n, m, h⟩
    exact targetIds_message h

/-- Survivors are refused just when their ids are not as many. -/
theorem refuses_stashSurvivors_iff {s : Pad} {collection : String} {v : Survivors} :
    Refuses (.ok (stashSurvivors hashRecord repr ttl s collection v)) ↔
      checkLength v.records v.ids ≠ .ok () := by
  refine Iff.trans ⟨?_, ?_⟩ (computeTargetIds_message_iff hashRecord)
  · rintro ⟨n, m, t, h⟩
    cases htargets : computeTargetIds hashRecord v.records v.ids with
    | error message =>
      simp only [stashSurvivors, htargets] at h
      obtain ⟨hreply, -⟩ := Prod.mk.inj (Except.ok.inj h)
      obtain rfl := (Reply.error.inj hreply).1
      exact ⟨n, m, rfl⟩
    | ok targets =>
      cases hexisting : listIds repr s collection with
      | error message =>
        simp only [stashSurvivors, htargets, hexisting] at h
        obtain ⟨hreply, -⟩ := Prod.mk.inj (Except.ok.inj h)
        obtain rfl := (Reply.error.inj hreply).1
        exact absurd hexisting listIds_message
      | ok existing =>
        rw [stashSurvivors_eq htargets hexisting] at h
        cases h
  · rintro ⟨n, m, h⟩
    exact ⟨n, m, s, by simp [stashSurvivors, h]⟩

/-! ### With and without -/

theorem sift_ok : ∀ {rows : List (Json × Option DedupVerdict)} {recordIds : RecordIds} {index : ℕ},
    (∀ ids, recordIds = some ids → index + rows.length ≤ ids.length) →
      ∃ u, sift recordIds index rows = .ok u := by
  intro rows
  induction rows with
  | nil => exact fun _ => ⟨_, rfl⟩
  | cons row rows ih =>
    intro recordIds index hlength
    obtain ⟨record, verdict⟩ := row
    obtain ⟨u, hu⟩ : ∃ u, sift recordIds (index + 1) rows = .ok u := by
      refine ih fun ids hids => ?_
      have hrow := hlength ids hids
      rw [List.length_cons] at hrow
      omega
    cases verdict with
    | some verdict => exact ⟨_, by rw [sift, hu]; rfl⟩
    | none =>
      cases recordIds with
      | none => exact ⟨_, by rw [sift, survivorId, hu]; rfl⟩
      | some ids =>
        have hin : index < ids.length := by
          have hrow := hlength ids rfl
          rw [List.length_cons] at hrow
          omega
        exact ⟨_, by rw [sift, survivorId, List.getElem?_eq_getElem hin, hu]; rfl⟩

variable {binding : StashDedupBinding}

/-- With a dedup they are never refused where there is a record, and where they are as many they are
    not out of range. -/
theorem bound_iff {q : Request} (hpositional : binding.checker.Positional)
    (hrecords : q.records ≠ []) (s : Pad) :
    ¬ Refuses ((survivorsOf (some (buildCallContextChecker repr binding)) q.records q.recordIds).map
        (stashSurvivors hashRecord repr ttl s q.collection)) ∧
    (checkLength q.records q.recordIds = .ok () →
      ¬ Crashes ((survivorsOf (some (buildCallContextChecker repr binding)) q.records
        q.recordIds).map (stashSurvivors hashRecord repr ttl s q.collection))) := by
  obtain ⟨results, out, -, hout, haligned⟩ :
      ∃ results out, binding.forwardResults repr _ = .ok results ∧
        buildCallContextChecker repr binding q.records = .ok out ∧
        Aligned repr binding q.records results out := buildCallContextChecker_aligned hpositional _
  have hsift : survivorsOf (some (buildCallContextChecker repr binding)) q.records q.recordIds =
      (sift q.recordIds 0 (q.records.zip out)).map fun u =>
        ⟨u.survivors, q.recordIds.map fun _ => u.survivorIds, u.duplicates⟩ := by
    unfold survivorsOf
    split
    case h_1 h => cases h
    case h_2 h => exact absurd h hrecords
    case h_3 checker h _ =>
      obtain rfl := Option.some.inj h
      simp only [hout, haligned.length, if_true]
  rw [hsift]
  refine ⟨?_, fun hlength => ?_⟩
  · cases hu : sift q.recordIds 0 (q.records.zip out) with
    | error e => rintro ⟨_, _, _, h⟩; cases h
    | ok u =>
      intro h
      refine refuses_stashSurvivors_iff.mp h ?_
      refine checkLength_ok_iff.mpr fun ids hids => ?_
      obtain ⟨_, -, rfl⟩ := Option.map_eq_some_iff.mp hids
      exact (sifts hu).length
  · obtain ⟨u, hu⟩ : ∃ u, sift q.recordIds 0 (q.records.zip out) = .ok u := by
      refine sift_ok fun ids hids => ?_
      rw [List.length_zip, haligned.length, checkLength_ok_iff.mp hlength ids hids]
      omega
    rw [hu]
    exact nofun

/-- Past the checks the dedup makes no difference to the ids just when there is no record, or they
    are as many. -/
theorem sameWay_survivors_iff {q : Request} (hpositional : binding.checker.Positional) (s : Pad) :
    SameWay
      ((survivorsOf none q.records q.recordIds).map
        (stashSurvivors hashRecord repr ttl s q.collection))
      ((survivorsOf (some (buildCallContextChecker repr binding)) q.records q.recordIds).map
        (stashSurvivors hashRecord repr ttl s q.collection)) ↔
      q.records = [] ∨ checkLength q.records q.recordIds = .ok () := by
  by_cases hrecords : q.records = []
  · refine iff_of_true ?_ (.inl hrecords)
    rw [hrecords]
    exact ⟨Iff.rfl, Iff.rfl⟩
  · rw [or_iff_right hrecords]
    obtain ⟨hnotRefused, hnotCrashed⟩ := bound_iff hpositional hrecords s
    have hplain (h : Crashes ((survivorsOf none q.records q.recordIds).map
        (stashSurvivors hashRecord repr ttl s q.collection))) : False := by
      cases h
    constructor
    · intro hsame
      by_contra hlength
      exact hnotRefused (hsame.1.mp (refuses_stashSurvivors_iff.mpr hlength))
    · intro hlength
      refine ⟨iff_of_false (fun h => ?_) hnotRefused, iff_of_false hplain (hnotCrashed hlength)⟩
      exact refuses_stashSurvivors_iff.mp h hlength

/-- A checker that answers position by position has its verdicts put in place; and its presence
    makes no difference to the ids just when they fit. -/
theorem recordIds_iff (hpositional : binding.checker.Positional) (ctx : CallContext) (args : Args)
    (s : Pad) :
    ((∀ records, ∃ results out,
        binding.forwardResults repr (binding.forwardRecords repr records) = .ok results ∧
          buildCallContextChecker repr binding records = .ok out ∧
          Aligned repr binding records results out) ∧
      SameWay (handler hashRecord repr ttl ctx.without args s)
        (handler hashRecord repr ttl (ctx.bound repr binding) args s)) ↔
      IdsFit repr ctx args := by
  rw [and_iff_right (buildCallContextChecker_aligned hpositional)]
  -- a call that does not come to its ids is answered before the dedup
  have hbefore (heq : handler hashRecord repr ttl ctx.without args s =
      handler hashRecord repr ttl (ctx.bound repr binding) args s) :
      SameWay (handler hashRecord repr ttl ctx.without args s)
        (handler hashRecord repr ttl (ctx.bound repr binding) args s) := by
    rw [heq]
    exact ⟨Iff.rfl, Iff.rfl⟩
  by_cases hinRun : ctx.inRun = true
  case neg =>
    refine iff_of_true (hbefore ?_) fun q ids h => absurd h hinRun
    simp [handler, CallContext.without, CallContext.bound, hinRun]
  case pos =>
    cases hq : requestOf repr args.dict with
    | error message =>
      refine iff_of_true (hbefore ?_) fun q ids _ h => by rw [hq] at h; cases h
      simp [handler, CallContext.without, CallContext.bound, hinRun, hq]
    | ok q =>
      by_cases hschema : schemaIssues args.floats ctx.recordSchema q.records = []
      case neg =>
        refine iff_of_true (hbefore ?_) fun q' ids _ h hschema' => ?_
        · simp [handler, CallContext.without, CallContext.bound, hinRun, hq, hschema]
        · obtain rfl := Except.ok.inj (hq.symm.trans h)
          exact absurd hschema' hschema
      case pos =>
        have hne : ctx.inRun ≠ false := by simp [hinRun]
        have hplain : handler hashRecord repr ttl ctx.without args s = _ :=
          handler_eq (show ctx.without.inRun ≠ false from hne) hq hschema s
        have hbound : handler hashRecord repr ttl (ctx.bound repr binding) args s = _ :=
          handler_eq (show (ctx.bound repr binding).inRun ≠ false from hne) hq hschema s
        rw [hplain, hbound]
        refine (sameWay_survivors_iff hpositional s).trans ?_
        rw [checkLength_ok_iff]
        constructor
        · rintro h q' ids _ hq' _ hids
          obtain rfl := Except.ok.inj (hq.symm.trans hq')
          exact h.imp_right fun hlength => hlength ids hids
        · intro h
          by_cases hrecords : q.records = []
          · exact .inl hrecords
          · exact .inr fun ids hids => (h q ids hinRun hq hschema hids).resolve_left hrecords

/-- A checker of jobs by their id, which knows the job `a`. -/
def jobs : StashDedupBinding where
  checker :=
    { name := "jobs"
      requiredFields := [⟨"external_id", false⟩]
      handler := fun forward => .ok (forward.map fun slim =>
        if slim.get "external_id" = some (.str "a") then some ⟨"exact", some "j-1", "seen before"⟩
        else none) }
  fieldMap := [("external_id", "job")]
  distinct := by decide

def noDedup : CallContext := ⟨true, [], none⟩

/-- One job, with so many ids. -/
def oneJob (ids : List Json) : Args := .of
  [("collection", .str "pending"), ("records", .arr [.obj [("job", .str "b")]]),
    ("record_ids", .arr ids)]

theorem jobs_positional : jobs.checker.Positional :=
  fun _ => ⟨_, rfl, List.length_map ..⟩

theorem oneJob_same :
    ((∀ records, ∃ results out,
        jobs.forwardResults (fun _ => "") (jobs.forwardRecords (fun _ => "") records) = .ok results ∧
          buildCallContextChecker (fun _ => "") jobs records = .ok out ∧
          Aligned (fun _ => "") jobs records results out) ∧
      SameWay (handler (fun _ => "h") (fun _ => "") 60 noDedup.without (oneJob [.str "j-2"])
          Services.Scratchpad.start)
        (handler (fun _ => "h") (fun _ => "") 60 (noDedup.bound (fun _ => "") jobs)
          (oneJob [.str "j-2"]) Services.Scratchpad.start)) ↔
      IdsFit (fun _ => "") noDedup (oneJob [.str "j-2"]) :=
  recordIds_iff jobs_positional noDedup (oneJob [.str "j-2"]) Services.Scratchpad.start

/-- Two ids for one job are refused without the dedup, and the first is taken with it. -/
theorem two_ids_taken :
    ¬ SameWay (handler (fun _ => "h") (fun _ => "") 60 noDedup.without
        (oneJob [.str "j-2", .str "j-3"]) Services.Scratchpad.start)
      (handler (fun _ => "h") (fun _ => "") 60 (noDedup.bound (fun _ => "") jobs)
        (oneJob [.str "j-2", .str "j-3"]) Services.Scratchpad.start) := by
  intro hsame
  obtain ⟨_, _, _, h⟩ := hsame.1.mp ⟨2, 1, Services.Scratchpad.start, rfl⟩
  cases h

end LunaCore.Mcp.StashRecords
