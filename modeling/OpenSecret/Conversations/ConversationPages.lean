import OpenSecret.Conversations.Listing

/-!
Walking the pages of a user's conversations. One table holds them all, so its
primary key makes the listing order total and a uuid names one conversation.
-/
namespace OpenSecret.Conversations
open Framing Keyset Responses List

def Conversation.matches (projectFilter : ConversationProjectFilter) (pinned : Option Bool)
    (c : Conversation) : Bool :=
  (match projectFilter with
    | .any => true
    | .assigned projectId => c.projectId = some projectId
    | .unassigned => c.projectId = none) && pinned.all (c.isPinned = ·)

def ConversationTables.matching (t : ConversationTables) (userId : Uuid)
    (projectFilter : ConversationProjectFilter) (pinned : Option Bool) : List Conversation :=
  t.conversations.rows.filter fun c => c.userId = userId && c.matches projectFilter pinned

section
variable {t : ConversationTables} {userId : Uuid} {order : Text}
  {projectFilter : ConversationProjectFilter}
  {pinned : Option Bool}

theorem filterConversations_eq :
    filterConversations t userId projectFilter pinned = t.matching userId projectFilter pinned := by
  unfold filterConversations ConversationTables.matching Conversation.matches
  cases projectFilter <;> cases pinned <;> simp [filter_filter, Bool.and_comm, Bool.and_left_comm]

theorem find_cursor {c : Conversation} (stored : c ∈ t.matching userId projectFilter pinned) :
    (t.conversations.rows.filter fun row => row.uuid = c.uuid ∧ row.userId = userId).head? =
      some c := by
  obtain ⟨known,selected⟩ := mem_filter.mp stored
  have owned : c.userId = userId := of_decide_eq_true (Bool.and_eq_true_iff.mp selected).1
  have narrowed : (t.conversations.rows.filter fun row => row.uuid = c.uuid ∧ row.userId = userId) =
      (t.conversations.rows.filter (·.uuid = c.uuid)).filter (·.userId = userId) := by
    rw [filter_filter]
    exact filter_congr fun row _ => by rw [Bool.and_comm, Bool.decide_and]
  rw [narrowed, filter_id t.conversations.uuids known, filter_cons_of_pos (by simpa using owned)]
  rfl

variable {K : Type} [LinearOrder K] {key : Conversation → K}

theorem conversations_chained (lists : Lists Conversation.place order key)
    (db : OrderBy Conversation) :
    Chained Conversation.uuid fun after =>
      orderRows db Conversation.place order
        (selectConversations t userId after order projectFilter pinned) := by
  have keys : ((t.matching userId projectFilter pinned).map key).Nodup := by
    have ids : ((t.matching userId projectFilter pinned).map Conversation.id).Nodup :=
      t.conversations.ids.sublist (filter_sublist.map Conversation.id)
    refine pairwise_map.mpr ((pairwise_map.mp ids).imp fun differ same => differ ?_)
    exact congrArg Prod.snd (lists.collides _ _ same)
  simp only [lists.sorts]
  refine chained_sort db keys ?_ ?_
  · intro after
    have unselective : t.matching userId projectFilter pinned =
        (t.matching userId projectFilter pinned).filter fun _ => true := by rw [filter_true]
    unfold selectConversations
    rw [filterConversations_eq]
    dsimp only
    split
    · exact ⟨fun _ => true,unselective,fun _ _ _ _ => rfl⟩
    · split
      · rename_i cursor _
        refine ⟨_,rfl,?_⟩
        simp only [lists.follows, decide_eq_true_eq]
        exact fun a b upward selected => selected.trans upward
      · exact ⟨fun _ => true,unselective,fun _ _ _ _ => rfl⟩
  · intro c stored
    unfold selectConversations
    simp only [filterConversations_eq, find_cursor stored, lists.follows]

end

section
variable {R : Runtime} {fromSlice : Bytes → Option Json} {t : ConversationTables} {userUuid : Uuid}

def CacheSound (t : ConversationTables) (userUuid : Uuid) (cache : ProjectCache) : Prop :=
  ∀ entry ∈ cache, ∃ project, getProjectByIdAndUser t entry.1 userUuid = .ok project ∧
    project.uuid = entry.2

def describe (R : Runtime) (fromSlice : Bytes → Option Json) (t : ConversationTables)
    (userUuid : Uuid) (c : Conversation) : Except ApiError ConversationResponse :=
  (buildConversationResponse R fromSlice t userUuid c none []).map Prod.fst

variable {cache : ProjectCache} {params : ListConversationsParams}
  {filter : ConversationProjectFilter}

theorem resolveProjectUuid_cached (projectId : Option Int) (sound : CacheSound t userUuid cache) :
    (∃ e, resolveProjectUuid t userUuid projectId cache = .error e ∧
      resolveProjectUuid t userUuid projectId [] = .error e) ∨
    ∃ uuid cache' fresh, resolveProjectUuid t userUuid projectId cache = .ok (uuid,cache') ∧
      resolveProjectUuid t userUuid projectId [] = .ok (uuid,fresh) ∧
        CacheSound t userUuid cache' := by
  cases projectId with
  | none => exact .inr ⟨none,cache,[],rfl,rfl,sound⟩
  | some id =>
    unfold resolveProjectUuid
    simp only [find?_nil]
    cases cached : cache.find? (·.1 = id) with
    | some entry =>
      obtain ⟨project,found,same⟩ := sound entry (mem_of_find?_eq_some cached)
      have named : entry.1 = id := by simpa using find?_some cached
      rw [named] at found
      simp only [found]
      exact .inr ⟨some entry.2,cache,_,rfl,by rw [← same]; rfl,sound⟩
    | none =>
      cases found : getProjectByIdAndUser t id userUuid with
      | error e => exact .inl ⟨e,rfl,rfl⟩
      | ok project =>
        refine .inr ⟨some project.uuid,_,_,rfl,rfl,?_⟩
        intro entry mem
        rcases mem_cons.mp mem with rfl | old
        · exact ⟨project,found,rfl⟩
        · exact sound entry old

variable (R fromSlice) in
theorem buildConversationResponse_cached (c : Conversation) (sound : CacheSound t userUuid cache) :
    (∃ e, buildConversationResponse R fromSlice t userUuid c none cache = .error e ∧
      describe R fromSlice t userUuid c = .error e) ∨
    ∃ response cache', buildConversationResponse R fromSlice t userUuid c none cache =
      .ok (response,cache') ∧
      describe R fromSlice t userUuid c = .ok response ∧ CacheSound t userUuid cache' := by
  unfold describe buildConversationResponse
  dsimp only
  cases decryptContent R fromSlice c.metadataEnc with
  | error e => exact .inl ⟨e,rfl,rfl⟩
  | ok metadata =>
    rcases resolveProjectUuid_cached c.projectId sound with
      ⟨e,failed,fails⟩ | ⟨uuid,cache',fresh,resolved,resolves,sound'⟩
    · rw [failed, fails]
      exact .inl ⟨e,rfl,rfl⟩
    · rw [resolved, resolves]
      exact .inr ⟨_,cache',rfl,rfl,sound'⟩

theorem buildConversationResponses_eq (rows : List Conversation)
    (sound : CacheSound t userUuid cache) :
    buildConversationResponses R fromSlice t userUuid rows cache =
      rows.mapM (describe R fromSlice t userUuid) := by
  induction rows generalizing cache with
  | nil => rfl
  | cons c rest ih =>
    rw [mapM_cons, buildConversationResponses]
    rcases buildConversationResponse_cached R fromSlice c sound with
      ⟨e,built,described⟩ | ⟨response,cache',built,described,sound'⟩
    · rw [built, described]
      rfl
    · rw [built, described]
      simp only [ih sound', bind, Except.bind]

theorem describe_id (c : Conversation) (response : ConversationResponse)
    (h : describe R fromSlice t userUuid c = .ok response) : response.id = c.uuid := by
  unfold describe buildConversationResponse at h
  dsimp only at h
  cases metadata : decryptContent R fromSlice c.metadataEnc with
  | error e => rw [metadata] at h; cases h
  | ok value =>
    cases project : resolveProjectUuid t userUuid c.projectId [] with
    | error e => rw [metadata, project] at h; cases h
    | ok found => rw [metadata, project] at h; cases h; rfl

theorem listConversations_eq (db : OrderBy Conversation)
    (resolved : resolveConversationProjectFilter t userUuid params = .ok filter)
    (after : Option Uuid) :
    listConversations R fromSlice t userUuid db { params with after } =
      page (paginationLimit params.limit).toNat (describe R fromSlice t userUuid)
        ConversationResponse.id
        (orderRows db Conversation.place params.order
          (selectConversations t userUuid after params.order filter params.pinned)) := by
  unfold listConversations listForUser
  rw [show resolveConversationProjectFilter _ _ { params with after } = _ from resolved]
  dsimp only [bind, Except.bind]
  rw [withinLimit_take _ (paginationLimit_pos params.limit)]
  dsimp only
  rw [buildConversationResponses_eq _ (show CacheSound t userUuid [] from nofun)]
  unfold page
  cases read : List.mapM (describe R fromSlice t userUuid) _ with
  | error e => rfl
  | ok data =>
    have ids := ids_of_mapM describe_id read
    have firsts := congrArg List.head? ids
    have lasts := congrArg List.getLast? ids
    rw [head?_map, head?_map] at firsts
    rw [getLast?_map, getLast?_map] at lasts
    simp only [Paginator.getCursorIds, bind, Except.bind, firsts, lasts]

theorem limit_pos : 0 < (paginationLimit params.limit).toNat :=
  Int.pos_iff_toNat_pos.mp (paginationLimit_pos params.limit)

theorem walked_conversations (db : OrderBy Conversation)
    (resolved : resolveConversationProjectFilter t userUuid params = .ok filter) :
    ∃ listing : List Conversation, listing.Perm (t.matching userUuid filter params.pinned) ∧
      (listing.Pairwise fun a b => listedBefore params.order a.place b.place) ∧
      Walk (fun after => listConversations R fromSlice t userUuid db { params with after }) none
        (listing.mapM (describe R fromSlice t userUuid)) := by
  obtain ⟨_,_,key,lists⟩ := exists_lists Conversation.place params.order
  have whole : selectConversations t userUuid none params.order filter params.pinned =
      t.matching userUuid filter params.pinned := filterConversations_eq
  refine ⟨db.sort key (t.matching userUuid filter params.pinned),db.perm _ _,?_,?_⟩
  · exact (db.sorted key _).imp fun upto => (lists.before _ _).mpr upto
  · simp only [listConversations_eq db resolved]
    rw [← lists.sorts, ← whole]
    exact walk_chained (conversations_chained lists db) describe_id limit_pos none

/-- If every conversation that matches can be shown, the walk comes to its end with
    all of them, each once and in order. -/
theorem readable_conversations_walked (db : OrderBy Conversation)
    (resolved : resolveConversationProjectFilter t userUuid params = .ok filter)
    (readable : ∀ c ∈ t.matching userUuid filter params.pinned,
      ∃ response, describe R fromSlice t userUuid c = .ok response) :
    ∃ (listing : List Conversation) (data : List ConversationResponse),
      listing.Perm (t.matching userUuid filter params.pinned) ∧
      (listing.Pairwise fun a b => listedBefore params.order a.place b.place) ∧
      Walk (fun after => listConversations R fromSlice t userUuid db { params with after })
        none (.ok data) ∧
      data.map ConversationResponse.id = listing.map Conversation.uuid := by
  obtain ⟨listing,same,ordered,walked⟩ := walked_conversations db resolved
  obtain ⟨data,read⟩ := mapM_ok fun c mem => readable c (same.subset mem)
  rw [read] at walked
  exact ⟨listing,data,same,ordered,walked,ids_of_mapM describe_id read⟩

end

/-- Every conversation that matches is shown once and in order; the walk fails
    only where a conversation cannot be shown. -/
theorem conversation_pages_exact (R : Runtime) (fromSlice : Bytes → Option Json)
    (t : ConversationTables) (userUuid : Uuid) (db : OrderBy Conversation)
    (params : ListConversationsParams) (filter : ConversationProjectFilter)
    (resolved : resolveConversationProjectFilter t userUuid params = .ok filter) :
    ∃ listing : List Conversation, listing.Perm (t.matching userUuid filter params.pinned) ∧
      (listing.Pairwise fun a b => listedBefore params.order a.place b.place) ∧
      Walk (fun after => listConversations R fromSlice t userUuid db { params with after }) none
        (listing.mapM (describe R fromSlice t userUuid)) ∧
      ∀ after p, listConversations R fromSlice t userUuid db { params with after } = .ok p →
        (p.hasMore = true ↔ ∃ last, p.lastId = some last ∧
          ∀ next, listConversations R fromSlice t userUuid db { params with after := some last } =
            .ok next →
            next.data ≠ []) := by
  obtain ⟨listing,same,ordered,walked⟩ := walked_conversations db resolved
  refine ⟨listing,same,ordered,walked,fun after p => ?_⟩
  obtain ⟨_,_,_,lists⟩ := exists_lists Conversation.place params.order
  simp only [listConversations_eq db resolved]
  exact hasMore_iff (conversations_chained lists db) describe_id limit_pos

/-- Three conversations without metadata, two of them pinned and equally recent. -/
def pinnedTables : ConversationTables where
  conversations :=
    ⟨[⟨1,numberedId 1,numberedId 9,none,true,none,5,8⟩,
      ⟨2,numberedId 2,numberedId 9,none,false,none,6,9⟩,
    ⟨3,numberedId 3,numberedId 9,none,true,none,7,8⟩],by decide,by decide +kernel⟩
  projects := .empty

theorem pinned_conversations_walked :
    ∃ data,
      Walk (fun after => listConversations openRuntime (fun _ => none)
        pinnedTables (numberedId 9) .stable
        ⟨1,after,descOrder,none,some true,some true⟩) none (.ok data) ∧
      (data.map ConversationResponse.id).Perm [numberedId 1,numberedId 3] := by
  obtain ⟨listing,same,-,walked,-⟩ :=
    conversation_pages_exact openRuntime (fun _ => none) pinnedTables (numberedId 9) .stable
    ⟨1,none,descOrder,none,some true,some true⟩ .unassigned rfl
  have matching : pinnedTables.matching (numberedId 9) .unassigned (some true) =
      [⟨1,numberedId 1,numberedId 9,none,true,none,5,8⟩,
        ⟨3,numberedId 3,numberedId 9,none,true,none,7,8⟩] := rfl
  rw [matching] at same
  have shown : ∀ c ∈ listing, ∃ response,
      describe openRuntime (fun _ => none) pinnedTables (numberedId 9) c = .ok response := by
    intro c mem
    rcases mem_cons.mp (same.subset mem) with rfl | other
    · exact ⟨_,rfl⟩
    · rw [mem_singleton.mp other]
      exact ⟨_,rfl⟩
  obtain ⟨data,read⟩ := mapM_ok shown
  rw [read] at walked
  refine ⟨data,walked,?_⟩
  rw [ids_of_mapM describe_id read]
  exact same.map Conversation.uuid

end OpenSecret.Conversations
