import OpenSecret.Conversations.Metadata

/-!
When a title task loses an update. Between its read and its write the task holds
metadata that an update can make outdated, and its write puts them back. The
last update is lost exactly when it commits in between and sets a key the task
had not read with that value.
-/
namespace OpenSecret.Conversations
open Framing Interleaving Responses List

/-- What is asked of `serde_json`: what is read is a value, and a value that is
    written is read back with the same keys. -/
structure ReadsBack (R : Runtime) (fromSlice : Bytes → Option Json) (value : Json → Prop)
    (completion : TitleCompletion) : Prop where
  parsed : ∀ bytes json, fromSlice bytes = some json → value json
  empty : value (.obj [])
  retitled : ∀ title, completion.title = .ok title → ∀ json, value json →
    value (json.set titleKey (.str title))
  reads : ∀ json, value json → ∃ again, fromSlice (utf8 (R.printJson json)) = some again ∧
    ∀ key, again.get key = json.get key

section
variable (id : Int)

def Commit.update? : Commit → Option (Option Json)
  | .updated conversationId metadata => if conversationId = id then some metadata else none
  | .titled _ _ => none

def Commit.isUpdate : Commit → Bool
  | .updated _ _ => true
  | .titled _ _ => false

def lastUpdate (commits : List Commit) :
    Option (Option Json) := commits.reverse.findSome? (Commit.update? id)

def lastSet (commits : List Commit) :
    Option Json := commits.reverse.findSome? fun c => (c.update? id).join

variable {id} {before after : List Commit}

theorem lastUpdate_append :
    lastUpdate id (before ++ after) = (lastUpdate id after).or (lastUpdate id before) := by
  rw [lastUpdate, reverse_append, findSome?_append]
  rfl

theorem lastSet_append :
    lastSet id (before ++ after) = (lastSet id after).or (lastSet id before) := by
  rw [lastSet, reverse_append, findSome?_append]
  rfl

variable {commits : List Commit}

theorem lastSet_of_lastUpdate {metadata : Json}
    (last : lastUpdate id commits = some (some metadata)) : lastSet id commits = some metadata := by
  unfold lastUpdate at last
  unfold lastSet
  generalize commits.reverse = newest at last ⊢
  induction newest with
  | nil => cases last
  | cons c rest ih =>
    rw [findSome?_cons] at last ⊢
    cases here : c.update? id with
    | none =>
      rw [here] at last
      exact ih last
    | some set =>
      rw [here] at last
      cases last
      rfl

theorem lastSet_none (untouched : lastUpdate id commits = none) :
    lastSet id commits = none := by
  unfold lastUpdate at untouched
  unfold lastSet
  rw [findSome?_eq_none_iff] at untouched ⊢
  intro c mem
  rw [untouched c mem]
  rfl

theorem split_unique {xs ys xs' ys' : List Commit} {x x' : Commit}
    (same : xs ++ x :: ys = xs' ++ x' :: ys') (updates : ∀ c ∈ xs, c.isUpdate = true)
    (later : ∀ c ∈ ys, c.isUpdate = true) (other : x'.isUpdate = false) :
    xs = xs' ∧ x = x' ∧ ys = ys' := by
  induction xs generalizing xs' with
  | nil =>
    cases xs' with
    | nil =>
      obtain ⟨first,rest⟩ := cons.inj same
      exact ⟨rfl,first,rest⟩
    | cons head tail =>
      obtain ⟨-,rest⟩ := cons.inj same
      have update := later x' (by rw [rest]; simp)
      rw [other] at update
      cases update
  | cons head tail ih =>
    cases xs' with
    | nil =>
      obtain ⟨first,-⟩ := cons.inj same
      have update := updates head mem_cons_self
      rw [first, other] at update
      cases update
    | cons head' tail' =>
      obtain ⟨rfl,rest⟩ := cons.inj same
      obtain ⟨rfl,first,last⟩ := ih rest fun c mem => updates c (mem_cons_of_mem _ mem)
      exact ⟨rfl,first,last⟩

end

section
variable (R : Runtime) (fromSlice : Bytes → Option Json) (user : Uuid)
  (value : Json → Prop) (conversation : Conversation)
  (w w' : ConversationWorld)

def Shows (metadataEnc : Option Bytes) (json : Json) : Prop :=
  ∃ stored, decryptContent R fromSlice metadataEnc = .ok (some stored) ∧
    ∀ key, stored.get key = json.get key

def Stored (start : Option Bytes) (set : Option Json) (metadataEnc : Option Bytes) : Prop :=
  set.elim (metadataEnc = start) (Shows R fromSlice metadataEnc)

def Holds (set : Option Json) (w : ConversationWorld) : Prop :=
  ∃ row ∈ w.tables.conversations.rows, row.id = conversation.id ∧ row.uuid = conversation.uuid ∧
    row.userId = conversation.userId ∧
      Stored R fromSlice conversation.metadataEnc set row.metadataEnc

def Updates : Prop :=
  ∃ id metadata changes, w'.commits = w.commits ++ [.updated id metadata] ∧
    w'.tables.conversations.rows = w.tables.conversations.rows.map
      (ConversationUpdateChanges.onRow changes id user) ∧
    (∀ json, metadata = some json → value json) ∧
    ∃ nonce, sealUpdate R nonce metadata = .ok changes.metadataEnc

def knownMetadata (commits : List Commit) : Json :=
  (lastSet conversation.id commits).getD
    ((decryptContent R fromSlice conversation.metadataEnc).toOption.join.getD (.obj []))

/-- The task has not written: there are updates only. -/
structure Untitled : Prop where
  updates : ∀ c ∈ w.commits, c.isUpdate = true
  holds : Holds R fromSlice conversation (lastSet conversation.id w.commits) w

/-- The task has written what it read after `version` commits, whatever was
    committed before its write. -/
structure Titled (before : List Commit) (version : Nat) (after : List Commit)
    (w : ConversationWorld) : Prop where
  commits : w.commits = before ++ .titled conversation.id version :: after
  earlier : ∀ c ∈ before, c.isUpdate = true
  later : ∀ c ∈ after, c.isUpdate = true
  holds : ∃ written : Json,
    Holds R fromSlice conversation ((lastSet conversation.id after).or (some written)) w ∧
    ∀ key, key ≠ titleKey →
      written.get key = (knownMetadata R fromSlice conversation (before.take version)).get key

/-- Where the conversation can be once the task has returned. -/
def Settled : Prop :=
  Untitled R fromSlice conversation w ∨ ∃ before version after,
    Titled R fromSlice conversation before version after w

/-- Every key the last committed update has set, but the title, is stored with
    that value. -/
def UpdateKept : Prop :=
  ∀ metadata, lastUpdate conversation.id w.commits = some (some metadata) →
    ∀ key v, key ≠ titleKey → metadata.get key = some v →
      ∃ row ∈ w.tables.conversations.rows, row.id = conversation.id ∧
        ∃ stored, decryptContent R fromSlice row.metadataEnc = .ok (some stored) ∧
          stored.get key = some v

/-- If the last update has committed between the read and the write of the task,
    the task had read the same values already. -/
def ReadInTime (commits : List Commit) : Prop :=
  ∀ before version after, commits = before ++ .titled conversation.id version :: after →
    lastUpdate conversation.id after = none →
    ∀ metadata, lastUpdate conversation.id (before.drop version) = some (some metadata) →
      ∀ key v, key ≠ titleKey → metadata.get key = some v →
        (knownMetadata R fromSlice conversation (before.take version)).get key = some v

variable {R fromSlice user value conversation w w'} {set metadata : Option Json}
  {metadataEnc : Option Bytes}
  {version : Nat}

theorem sealUpdate_some {nonce : Nonce} {json : Json}
    (encrypted : sealUpdate R nonce (some json) = .ok metadataEnc) :
    ∃ sealed, sealMetadata (ε := ApiError) R nonce json = .ok sealed ∧
      metadataEnc = some sealed := by
  unfold sealUpdate at encrypted
  dsimp only at encrypted
  split at encrypted
  · cases encrypted
  · obtain ⟨sealed,result,same⟩ := map_eq_ok.mp encrypted
    exact ⟨sealed,result,same.symm⟩

theorem update_ran {id : Int} {changes : ConversationUpdateChanges} {commit : Commit}
    {c : Conversation} (ran : Conversation.update id user changes commit w = .ok (c,w')) :
    w' = w ∨ w'.commits = w.commits ++ [commit] ∧
      w'.tables.conversations.rows = w.tables.conversations.rows.map (changes.onRow id user) := by
  unfold Conversation.update at ran
  split at ran
  · unfold Conversation.getByIdAndUser at ran
    split at ran
    · cases ran
      exact .inl rfl
    · cases ran
  · split at ran
    · cases ran
    · split at ran
      · cases ran
      · cases ran
        exact .inr ⟨rfl,rfl⟩

theorem update_answer (user : Uuid) (fate : CallFate) (id : Int)
    (changes : ConversationUpdateChanges) (commit : Commit) :
    (fate.answer (Conversation.update id user changes commit) w).2 = w ∨
      (fate.answer (Conversation.update id user changes commit) w).2.commits =
        w.commits ++ [commit] ∧
        (fate.answer (Conversation.update id user changes commit) w).2.tables.conversations.rows =
          w.tables.conversations.rows.map (changes.onRow id user) := by
  rcases answer_ran fate (Conversation.update id user changes commit) w with same | ⟨c,ran⟩
  · exact .inl same
  · exact update_ran ran

theorem getByUuidAndUser_reads {uuid : Uuid} {c : Conversation}
    (ran : Conversation.getByUuidAndUser uuid user w = .ok (c,w')) :
    w' = w ∧ w.tables.conversations.rows.find? (fun c => c.uuid = uuid ∧ c.userId = user) =
      some c := by
  unfold Conversation.getByUuidAndUser at ran
  split at ran
  · rename_i row found
    cases ran
    exact ⟨rfl,found⟩
  · cases ran

theorem readForTitle_spec {uuid : Uuid} {c : Conversation}
    (ran : readForTitle user uuid w = .ok ((c,version),w')) :
    w' = w ∧ version = w.commits.length ∧
      w.tables.conversations.rows.find? (fun c => c.uuid = uuid ∧ c.userId = user) = some c := by
  unfold readForTitle at ran
  split at ran
  · rename_i row same result
    obtain ⟨rfl,found⟩ := getByUuidAndUser_reads result
    cases ran
    exact ⟨rfl,rfl,found⟩
  · cases ran

theorem holds_find (holds : Holds R fromSlice conversation set w) :
    ∃ row, w.tables.conversations.rows.find?
        (fun c => c.uuid = conversation.uuid ∧ c.userId = conversation.userId) = some row ∧
      Stored R fromSlice conversation.metadataEnc set row.metadataEnc := by
  obtain ⟨row,mem,-,sameUuid,sameUser,stored⟩ := holds
  cases found : w.tables.conversations.rows.find?
      (fun c => c.uuid = conversation.uuid ∧ c.userId = conversation.userId) with
  | none =>
    have absent := find?_eq_none.mp found row mem
    simp [sameUuid, sameUser] at absent
  | some other =>
    have hit := find?_some found
    rw [decide_eq_true_eq] at hit
    have same : other = row := inj_on_of_nodup_map w.tables.conversations.uuids
      (mem_of_find?_eq_some found) mem (hit.1.trans sameUuid.symm)
    exact ⟨other,rfl,same ▸ stored⟩

theorem read_known (stored : Stored R fromSlice conversation.metadataEnc set metadataEnc)
    (decrypted : decryptContent R fromSlice metadataEnc = .ok metadata) (key : Text) :
    (metadata.getD (.obj [])).get key =
      (set.getD ((decryptContent R fromSlice conversation.metadataEnc).toOption.join.getD
        (.obj []))).get key := by
  cases set with
  | none =>
    have same : metadataEnc = conversation.metadataEnc := stored
    rw [← same, decrypted]
    rfl
  | some json =>
    obtain ⟨found,opens,keys⟩ := stored
    rw [opens] at decrypted
    cases decrypted
    exact keys key

theorem within_read {ε α : Type} {rename : ResponsesError → ε} {fate : CallFate}
    {statement : ConversationStatement α} (reads : ∀ w a w', statement w = .ok (a,w') → w' = w) :
    Within (Updates R user value) (query rename fate statement) := by
  apply within_mapError.mpr
  apply confined_transact
  intro w
  rcases answer_ran fate statement w with same | ⟨a,ran⟩
  · exact .inl same
  · exact .inl (reads w a _ ran)

theorem within_resolveProjectUpdate (fate : CallFate) (projectId : NullableField Uuid) :
    Within (Updates R user value) (resolveProjectUpdate user fate projectId) := by
  cases projectId with
  | missing => exact within_pure
  | null => exact within_pure
  | value projectUuid =>
    apply within_bind.mpr
    constructor
    · apply within_read
      intro w project w' ran
      unfold getConversationProjectByUuidAndUser at ran
      split at ran
      · cases ran
        rfl
      · cases ran
    · intro project _
      exact within_pure

theorem within_resolveUpdatedProject (fate : CallFate) (projectId : Option Int)
    (cache : ProjectCache) :
    Within (Updates R user value) (resolveUpdatedProject user fate projectId cache) := by
  cases projectId with
  | none => exact within_pure
  | some projectId =>
    unfold resolveUpdatedProject
    dsimp only
    split
    · exact within_pure
    · apply within_bind.mpr
      constructor
      · apply within_read
        intro w project w' ran
        unfold getConversationProjectByIdAndUser at ran
        split at ran
        · cases ran
          rfl
        · cases ran
      · intro project _
        exact within_pure

theorem within_updateConversation {call : UpdateCall}
    (valid : ∀ metadata, call.body.metadata = some metadata → value metadata) :
    Within (Updates R user value) (updateConversation R fromSlice user call) := by
  apply within_ite.mpr
  constructor
  · intro _
    exact within_throw
  · intro _
    apply within_bind.mpr
    constructor
    · exact within_read fun w c w' ran => (getByUuidAndUser_reads ran).1
    intro conversation _
    apply within_bind.mpr
    constructor
    · exact within_settle
    intro _ _
    apply within_bind.mpr
    constructor
    · exact within_settle
    intro metadataEnc sealed
    apply within_bind.mpr
    constructor
    · exact within_resolveProjectUpdate (call.fates 1) call.body.projectId
    intro project _
    apply within_bind.mpr
    constructor
    · apply within_mapError.mpr
      apply confined_transact
      intro w
      apply (update_answer user (call.fates 2) conversation.id _ _).imp_right
      intro committed
      exact ⟨conversation.id,call.body.metadata,_,committed.1,committed.2,valid,call.nonce,sealed⟩
    intro updated _
    apply within_bind.mpr
    constructor
    · exact within_settle
    intro metadata _
    apply within_bind.mpr
    constructor
    · exact within_resolveUpdatedProject (call.fates 3) updated.projectId project.2
    intro projectId _
    exact within_pure

section
variable {task : TitleTask} (serde : ReadsBack R fromSlice value task.completion)
  (owner : conversation.userId = user)
  (ideal : R.primitives.IdealAead)

include serde in
theorem value_decrypted (decrypted : decryptContent R fromSlice metadataEnc = .ok metadata) :
    value (metadata.getD (.obj [])) := by
  unfold decryptContent at decrypted
  split at decrypted
  · cases decrypted
    exact serde.empty
  · split at decrypted
    · cases decrypted
    · split at decrypted
      · cases decrypted
      · rename_i bytes _ _ json read
        cases decrypted
        exact serde.parsed bytes json read

include owner in
theorem holds_onRow {id : Int} {changes : ConversationUpdateChanges}
    (rows : w'.tables.conversations.rows = w.tables.conversations.rows.map (changes.onRow id user))
    (holds : Holds R fromSlice conversation set w) {new : Option Json}
    (here : id = conversation.id → ∀ row : Conversation,
      Stored R fromSlice conversation.metadataEnc set row.metadataEnc →
      Stored R fromSlice conversation.metadataEnc new (changes.apply row).metadataEnc)
    (elsewhere : id ≠ conversation.id → new = set) : Holds R fromSlice conversation new w' := by
  obtain ⟨row,mem,sameId,sameUuid,sameUser,stored⟩ := holds
  refine ⟨changes.onRow id user row,?_,?_,?_,?_,?_⟩
  · rw [rows]
    exact mem_map_of_mem mem
  · rw [onRow_id, sameId]
  · rw [onRow_uuid, sameUuid]
  · rw [onRow_userId, sameUser]
  · by_cases same : id = conversation.id
    · rw [ConversationUpdateChanges.onRow, if_pos ⟨sameId.trans same.symm,sameUser.trans owner⟩]
      exact here same row stored
    · rw [ConversationUpdateChanges.onRow, if_neg fun hit => same (hit.1.symm.trans sameId),
        elsewhere same]
      exact stored

include ideal serde

theorem shows_sealed {ε : Type} {nonce : Nonce} {json : Json} {sealed : Bytes} (valid : value json)
    (encrypted : sealMetadata (ε := ε) R nonce json = .ok sealed) :
    Shows R fromSlice (some sealed) json := by
  have opens : decryptWithKey R.primitives R.userKey sealed = .ok (utf8 (R.printJson json)) := by
    unfold sealMetadata at encrypted
    split at encrypted
    · rename_i bytes result
      cases encrypted
      exact decryptWithKey_encryptWithKey ideal result
    · cases encrypted
  obtain ⟨again,read,keys⟩ := serde.reads json valid
  refine ⟨again,?_,keys⟩
  simp only [decryptContent, opens, read]

include owner

theorem updates_holds (step : Updates R user value w w')
    (holds : Holds R fromSlice conversation set w) :
    ∃ commit : Commit, commit.isUpdate = true ∧ w'.commits = w.commits ++ [commit] ∧
      Holds R fromSlice conversation ((lastSet conversation.id [commit]).or set) w' := by
  obtain ⟨id,metadata,changes,commits,rows,valid,nonce,sealed⟩ := step
  refine ⟨.updated id metadata,rfl,commits,holds_onRow owner rows holds ?_ ?_⟩
  · intro same row stored
    have last : lastSet conversation.id [.updated id metadata] = metadata := by
      simp [lastSet, Commit.update?, same]
    rw [last]
    cases metadata with
    | none =>
      have unset : changes.metadataEnc = none := (Except.ok.inj sealed).symm
      rw [Option.none_or, ConversationUpdateChanges.apply, unset, Option.none_or]
      exact stored
    | some json =>
      obtain ⟨bytes,encrypted,same⟩ := sealUpdate_some sealed
      rw [Option.some_or, ConversationUpdateChanges.apply, same, Option.some_or]
      exact shows_sealed serde ideal (valid json rfl) encrypted
  · intro other
    have last : lastSet conversation.id [.updated id metadata] = none := by
      simp [lastSet, Commit.update?, other]
    rw [last, Option.none_or]

theorem updates_run (later : Relation.ReflTransGen (Updates R user value) w w')
    (holds : Holds R fromSlice conversation set w) :
    ∃ more, (∀ c ∈ more, Commit.isUpdate c = true) ∧ w'.commits = w.commits ++ more ∧
      Holds R fromSlice conversation ((lastSet conversation.id more).or set) w' := by
  induction later with
  | refl => exact ⟨[],by simp,(append_nil _).symm,by simpa [lastSet] using holds⟩
  | tail _ step ih =>
    obtain ⟨more,updates,commits,now⟩ := ih
    obtain ⟨commit,update,added,after⟩ := updates_holds serde owner ideal step now
    refine ⟨more ++ [commit],?_,?_,?_⟩
    · exact forall_mem_append.mpr ⟨updates,by simpa using update⟩
    · rw [added, commits, append_assoc]
    · rw [lastSet_append, Option.or_assoc]
      exact after

theorem untitled_later (later : Relation.ReflTransGen (Updates R user value) w w')
    (untitled : Untitled R fromSlice conversation w) :
    Untitled R fromSlice conversation w' ∧ w.commits <+: w'.commits := by
  obtain ⟨more,updates,commits,holds⟩ := updates_run serde owner ideal later untitled.holds
  refine ⟨⟨?_,?_⟩,⟨more,commits.symm⟩⟩
  · rw [commits]
    exact forall_mem_append.mpr ⟨untitled.updates,updates⟩
  · rw [commits, lastSet_append]
    exact holds

theorem returns_settled {α : Type} (result : α) (settled : Settled R fromSlice conversation w) :
    Prog.Against (Updates R user value) (fun _ => Settled R fromSlice conversation)
      (.done result) w := by
  intro w' later
  rcases settled with untitled | ⟨before,version,after,titled⟩
  · exact .inl (untitled_later serde owner ideal later untitled).1
  · obtain ⟨written,holds,keys⟩ := titled.holds
    obtain ⟨more,updates,commits,now⟩ := updates_run serde owner ideal later holds
    refine .inr ⟨before,version,after ++ more,?_,titled.earlier,?_,written,?_,keys⟩
    · rw [commits, titled.commits, append_assoc, cons_append]
    · exact forall_mem_append.mpr ⟨titled.later,updates⟩
    · rw [lastSet_append, Option.or_assoc]
      exact now

theorem write_titles {written : Json} {nonce : Nonce} {metadataEnc : Bytes} {snapshot : List Commit}
    (valid : value written)
    (encrypted : sealMetadata (ε := TitleFailure) R nonce written = .ok metadataEnc)
    (untitled : Untitled R fromSlice conversation w) (read : snapshot <+: w.commits)
    (length : version = snapshot.length)
    (keys : ∀ key, key ≠ titleKey → written.get key =
      (knownMetadata R fromSlice conversation snapshot).get key)
    (fate : CallFate) :
    Settled R fromSlice conversation
      (fate.answer (Conversation.updateMetadata conversation.id user metadataEnc
      (.titled conversation.id version)) w).2 := by
  unfold Conversation.updateMetadata
  rcases update_answer (w := w) user fate conversation.id ⟨some metadataEnc,none,none⟩
    (.titled conversation.id version) with same | ⟨commits,rows⟩
  · rw [same]
    exact .inl untitled
  · refine .inr ⟨w.commits,version,[],commits,untitled.updates,forall_mem_nil _,written,?_,?_⟩
    · apply holds_onRow owner rows untitled.holds
      · intro _ row _
        exact shows_sealed serde ideal valid encrypted
      · intro other
        exact absurd rfl other
    · intro key other
      obtain ⟨more,same⟩ := read
      rw [← same, length, take_left]
      exact keys key other

theorem task_settles (sameId : task.conversationId = conversation.id)
    (sameUuid : task.conversationUuid = conversation.uuid)
    (untitled : Untitled R fromSlice conversation w) :
    Prog.Against (Updates R user value) (fun _ => Settled R fromSlice conversation)
      (spawnTitleGenerationTask R fromSlice user task).run w := by
  unfold spawnTitleGenerationTask
  apply against_settle
  · intro e _
    exact returns_settled serde owner ideal _ (.inl untitled)
  intro title titled
  apply against_call
  · intro t e later failed
    have stays := (untitled_later serde owner ideal later untitled).1
    apply returns_settled serde owner ideal
    rcases answer_ran (task.fates 0) (readForTitle user task.conversationUuid)
      t with same | ⟨⟨c,version⟩,ran⟩
    · rw [same]
      exact .inl stays
    · rw [(readForTitle_spec ran).1]
      exact .inl stays
  intro t read later answered
  obtain ⟨c,version⟩ := read
  have stays := (untitled_later serde owner ideal later untitled).1
  obtain ⟨unchanged,versionRead,found⟩ := readForTitle_spec (answer_ok answered)
  rw [unchanged]
  obtain ⟨row,foundRow,stored⟩ := holds_find stays.holds
  obtain rfl : c = row := by
    rw [sameUuid, ← owner] at found
    exact Option.some.inj (found.symm.trans foundRow)
  apply against_settle
  · intro e _
    exact returns_settled serde owner ideal _ (.inl stays)
  intro metadata decrypted
  have decrypted := mapError_eq_ok.mp decrypted
  have valid := serde.retitled title (mapError_eq_ok.mp titled) _ (value_decrypted serde decrypted)
  have keys : ∀ key, key ≠ titleKey →
    ((metadata.getD (.obj [])).set titleKey (.str title)).get key =
      (knownMetadata R fromSlice conversation t.commits).get key := by
    intro key other
    rw [Json.get_set_of_ne (Ne.symm other), read_known stored decrypted]
    rfl
  apply against_settle
  · intro e _
    exact returns_settled serde owner ideal _ (.inl stays)
  intro metadataEnc encrypted
  have writes : ∀ u, Relation.ReflTransGen (Updates R user value) t u →
      Settled R fromSlice conversation
        ((task.fates 1).answer (Conversation.updateMetadata task.conversationId user
        metadataEnc (.titled task.conversationId version)) u).2 := by
    intro u after
    obtain ⟨still,snapshot⟩ := untitled_later serde owner ideal after stays
    rw [sameId]
    exact write_titles serde owner ideal valid encrypted still
      snapshot versionRead keys (task.fates 1)
  apply against_call
  · intro u e after _
    exact returns_settled serde owner ideal _ (writes u after)
  intro u c after _
  exact returns_settled serde owner ideal _ (writes u after)

end

theorem stored_iff {json : Json} (holds : Holds R fromSlice conversation (some json) w) (key : Text)
    (v : Json) :
    (∃ row ∈ w.tables.conversations.rows, row.id = conversation.id ∧
      ∃ stored, decryptContent R fromSlice row.metadataEnc = .ok (some stored) ∧
        stored.get key = some v) ↔
    json.get key = some v := by
  obtain ⟨row,mem,sameId,-,-,stored,opens,keys⟩ := holds
  constructor
  · rintro ⟨other,there,alike,found,read,here⟩
    have same : other = row := inj_on_of_nodup_map w.tables.conversations.ids there mem
      (alike.trans sameId.symm)
    rw [same, opens] at read
    cases read
    rw [← keys key]
    exact here
  · intro here
    exact ⟨row,mem,sameId,stored,opens,(keys key).trans here⟩

theorem updateKept_of_set {metadata : Json}
    (holds : Holds R fromSlice conversation (some metadata) w)
    (last : lastUpdate conversation.id w.commits = some (some metadata)) :
    UpdateKept R fromSlice conversation w := by
  intro other sameLast key v _ here
  rw [last] at sameLast
  cases sameLast
  exact (stored_iff holds key v).mpr here

theorem untitled_kept (untitled : Untitled R fromSlice conversation w) :
    UpdateKept R fromSlice conversation w := by
  intro metadata last
  have holds := untitled.holds
  rw [lastSet_of_lastUpdate last] at holds
  exact updateKept_of_set holds last metadata last

theorem untitled_readInTime (untitled : Untitled R fromSlice conversation w) :
    ReadInTime R fromSlice conversation w.commits := by
  intro before version after split
  have update := untitled.updates (.titled conversation.id version) (by rw [split]; simp)
  cases update

theorem titled_kept_iff {before after : List Commit} {version : Nat}
    (titled : Titled R fromSlice conversation before version after w) :
    UpdateKept R fromSlice conversation w ↔ ReadInTime R fromSlice conversation w.commits := by
  obtain ⟨written,holds,keys⟩ := titled.holds
  have last : lastUpdate conversation.id w.commits =
      (lastUpdate conversation.id after).or ((lastUpdate conversation.id (before.drop version)).or
        (lastUpdate conversation.id (before.take version))) := by
    rw [← lastUpdate_append, take_append_drop, titled.commits,
      lastUpdate_append, ← singleton_append,
      lastUpdate_append, show lastUpdate conversation.id [.titled conversation.id version] =
      none from rfl,
      Option.or_none]
  have split : ∀ before' version' after', w.commits =
    before' ++ .titled conversation.id version' :: after' →
      before = before' ∧ version = version' ∧ after = after' := by
    intro before' version' after' other
    obtain ⟨first,same,rest⟩ :=
      split_unique (titled.commits.symm.trans other) titled.earlier titled.later rfl
    cases same
    exact ⟨first,rfl,rest⟩
  cases afterwards : lastUpdate conversation.id after with
  | some set =>
    rw [afterwards, Option.some_or] at last
    constructor
    · intro _ before' version' after' other untouched
      obtain ⟨-,-,rfl⟩ := split before' version' after' other
      rw [afterwards] at untouched
      cases untouched
    · intro _ metadata sameLast
      rw [last] at sameLast
      cases sameLast
      rw [lastSet_of_lastUpdate afterwards, Option.some_or] at holds
      exact updateKept_of_set holds last metadata last
  | none =>
    rw [lastSet_none afterwards, Option.none_or] at holds
    rw [afterwards, Option.none_or] at last
    constructor
    · intro kept before' version' after' other _ metadata between key v noTitle here
      obtain ⟨rfl,rfl,rfl⟩ := split before' version' after' other
      rw [between, Option.some_or] at last
      rw [← keys key noTitle]
      exact (stored_iff holds key v).mp (kept metadata last key v noTitle here)
    · intro inTime metadata sameLast key v noTitle here
      rw [stored_iff holds, keys key noTitle]
      cases between : lastUpdate conversation.id (before.drop version) with
      | some set =>
        rw [last, between, Option.some_or] at sameLast
        cases sameLast
        exact inTime before version after titled.commits afterwards
          metadata between key v noTitle here
      | none =>
        rw [last, between, Option.none_or] at sameLast
        rw [knownMetadata, lastSet_of_lastUpdate sameLast]
        exact here

end

def tagKey : Text := "tag"

def sampleTitle : Text := "Trip"

def sampleMetadata (tagged titled : Bool) : Json :=
  .obj ((if tagged then [(tagKey,.str "work")] else []) ++ if titled
    then [(titleKey,.str sampleTitle)] else [])

def flagRuntime : Runtime :=
  { openRuntime with
    primitives := transparentPrimitives
    printJson := fun json =>
      (if (json.get tagKey).isSome then ['a'] else []) ++ if (json.get titleKey).isSome
        then ['t'] else [] }

def readFlags (bytes : Bytes) :
    Option Json := some (sampleMetadata (bytes.contains 97) (bytes.contains 116))

def IsSample (json : Json) : Prop := ∃ tagged titled, json = sampleMetadata tagged titled

def sampleTask : TitleTask where
  conversationId := 1
  conversationUuid := numberedId 1
  completion := .fullResponse (.obj [("choices",.arr [.obj [("message",
    .obj [("content",.str " Trip\n")])]])])
  nonce := sampleNonce
  fates _ := .answered

theorem flags_read_back : ReadsBack flagRuntime readFlags IsSample sampleTask.completion where
  parsed bytes json read := ⟨_,_,(Option.some.inj read).symm⟩
  empty := ⟨false,false,rfl⟩
  retitled title titled json valid := by
    have same : title = sampleTitle := (Except.ok.inj titled).symm
    obtain ⟨tagged,hasTitle,rfl⟩ := valid
    rw [same]
    refine ⟨tagged,true,?_⟩
    cases tagged <;> cases hasTitle <;> rfl
  reads json valid := by
    obtain ⟨tagged,titled,rfl⟩ := valid
    refine ⟨sampleMetadata tagged titled,?_,fun _ => rfl⟩
    cases tagged <;> cases titled <;> rfl

def tagUpdate : MetadataRequest :=
  .update ⟨numberedId 1,⟨some (sampleMetadata true false),.missing,none⟩,true,sampleNonce,fun _ =>
    .answered⟩

def untitledConversation : Conversation := ⟨1,numberedId 1,numberedId 9,none,false,none,5,5⟩

def untitledTables : ConversationTables where
  conversations := ⟨[untitledConversation],by decide,by decide +kernel⟩
  projects := .empty

abbrev sampleWriters : System ConversationWorld MetadataRequest MetadataReply :=
  metadataWriters flagRuntime readFlags (numberedId 9) IsSample

def titleSpawned : Config ConversationWorld MetadataRequest MetadataReply :=
  ⟨⟨untitledTables,[]⟩,
    [(.title sampleTask,serveMetadata flagRuntime readFlags (numberedId 9) (.title sampleTask))]⟩

theorem sample_run (moves : List (Move MetadataRequest))
    (only : ∀ request, .arrive request ∈ moves → request = tagUpdate) :
    Run sampleWriters titleSpawned (titleSpawned.play sampleWriters moves) := by
  apply run_play_admitted
  intro request mem s
  rw [only request mem]
  intro metadata given
  exact ⟨true,false,(Option.some.inj given).symm⟩

/-- The task reads, the update commits, the task writes. -/
def overwriting : List (Move MetadataRequest) :=
  [.advance 0,.arrive tagUpdate,.advance 1,.advance 1,.advance 0]

/-- The task has written before the update commits. -/
def inTurn : List (Move MetadataRequest) :=
  [.advance 0,.arrive tagUpdate,.advance 1,.advance 0,.advance 1]

end OpenSecret.Conversations
