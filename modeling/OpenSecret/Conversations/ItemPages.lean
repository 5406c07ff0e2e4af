import OpenSecret.Conversations.Items

/-!
Walking the pages of a conversation's items. Serial ids and uuids are unique in
each table but not across the five, so the listing order is total, and a cursor
names one item, only where no two items of the conversation collide.
-/
namespace OpenSecret.Conversations
open Framing Keyset Responses ConversationItemConverter List

structure Item where
  messageType : MessageType
  id : Int
  uuid : Uuid
  createdAt : Int

def Item.place (i : Item) : Int × Int := (i.createdAt,i.id)

def Item.named (i : Item) : MessageType × Uuid := (i.messageType,i.uuid)

def ItemTables.items (t : ItemTables) (conversationId : Int) : List Item :=
  (t.userMessages.rows.filter (·.conversationId = conversationId)).map
    (fun m => ⟨.user,m.id,m.uuid,m.createdAt⟩) ++
  (t.assistantMessages.rows.filter (·.conversationId = conversationId)).map
    (fun m => ⟨.assistant,m.id,m.uuid,m.createdAt⟩) ++
  (t.toolCalls.rows.filter (·.conversationId = conversationId)).map
    (fun c => ⟨.toolCall,c.id,c.uuid,c.createdAt⟩) ++
  (t.toolOutputs.rows.filter (·.conversationId = conversationId)).map
    (fun o => ⟨.toolOutput,o.id,o.uuid,o.createdAt⟩) ++
  (t.reasoningItems.rows.filter (·.conversationId = conversationId)).map
    (fun r => ⟨.reasoning,r.id,r.uuid,r.createdAt⟩)

def RawThreadMessage.item (m : RawThreadMessage) : Item := ⟨m.messageType,m.id,m.uuid,m.createdAt⟩

theorem conversationMessages_items (t : ItemTables) (conversationId : Int) :
    (conversationMessages t conversationId).map RawThreadMessage.item = t.items conversationId := by
  have joined : ∀ outputs : List ToolOutput, outputs ⊆ t.toolOutputs.rows →
      (outputs.flatMap fun tto => (t.toolCalls.rows.filter (·.id = tto.toolCallFk)).map fun tc =>
        (⟨.toolOutput,tto.id,tto.uuid,some tto.outputEnc,some .completed,tto.createdAt,some tc.uuid,
          some tc.name⟩ : RawThreadMessage)).map RawThreadMessage.item =
      outputs.map fun o => ⟨.toolOutput,o.id,o.uuid,o.createdAt⟩ := by
    intro outputs stored
    induction outputs with
    | nil => rfl
    | cons output rest ih =>
      obtain ⟨known,others⟩ := cons_subset.mp stored
      obtain ⟨call,mem,same⟩ := t.toolCallFks output known
      have single : t.toolCalls.rows.filter (·.id = output.toolCallFk) = [call] := by
        rw [← same]
        exact filter_id t.toolCalls.ids mem
      rw [flatMap_cons, single, map_append, ih others]
      rfl
  simp only [conversationMessages, ItemTables.items, map_append, map_map,
    joined _ (filter_subset_self _)]
  rfl

def ConversationItem.named : ConversationItem → MessageType × Uuid
  | .message id _ role _ _ => (if role = roleUser then .user else .assistant,id)
  | .functionToolCall id _ _ _ _ _ => (.toolCall,id)
  | .functionToolCallOutput id _ _ _ _ => (.toolOutput,id)
  | .reasoning id _ _ _ => (.reasoning,id)

theorem ConversationItem.named_id (item : ConversationItem) :
    item.named.2 = item.id := by cases item <;> rfl

variable {R : Runtime}

theorem messageToItem_named {msg : RawThreadMessage} {item : ConversationItem}
    (h : messageToItem R msg = .ok item) : item.named = msg.item.named := by
  obtain ⟨content,-,h⟩ := bind_eq_ok.mp h
  have named : msg.item.named = (msg.messageType,msg.uuid) := rfl
  rw [named]
  cases kind : msg.messageType with
  | user =>
    simp only [kind, userMessageToItem] at h
    split at h
    · cases h
    · cases h; rfl
  | assistant =>
    simp only [kind, assistantMessageToItem] at h
    cases h; rfl
  | toolCall =>
    simp only [kind, toolCallToItem] at h
    split at h
    · cases h
    · cases h; rfl
  | toolOutput =>
    simp only [kind, toolOutputToItem] at h
    split at h
    · cases h
    · cases h; rfl
  | reasoning =>
    simp only [kind, reasoningToItem] at h
    cases h; rfl

theorem messageToItem_id (msg : RawThreadMessage) (item : ConversationItem)
    (h : messageToItem R msg = .ok item) : item.id = msg.uuid := by
  rw [← item.named_id, messageToItem_named h]
  rfl

theorem listConversationItems_eq (db : OrderBy RawThreadMessage) (R : Runtime) (t : ItemTables)
    (conversationId limit : Int) (after : Option Uuid) (order : Text) :
    listConversationItems db R t conversationId ⟨limit,after,order⟩ =
      page (paginationLimit limit).toNat (messageToItem R) ConversationItem.id
        (orderMessages db order
          (selectMessages (conversationMessages t conversationId) after order)) := by
  unfold listConversationItems getConversationContext
  dsimp only
  rw [withinLimit_take _ (paginationLimit_pos limit)]
  simp only [messagesToItems, drop_zero, take_length]
  rfl

section
variable {K : Type} [LinearOrder K] {key : RawThreadMessage → K}
  {order : Text} {messages : List RawThreadMessage}

variable {row : RawThreadMessage}

theorem select_mem {after : Option Uuid} (mem : row ∈ selectMessages messages after order) :
    row ∈ messages ∧ ∀ uuid, after = some uuid →
      ∃ cursor ∈ messages, cursor.uuid = uuid ∧ row.follows order cursor = true := by
  cases after with
  | none => exact ⟨mem,nofun⟩
  | some uuid =>
    obtain ⟨cm,stored,joined⟩ := mem_flatMap.mp mem
    obtain ⟨cursor,chosen,rfl⟩ := mem_map.mp joined
    obtain ⟨chosen,follows⟩ := mem_filter.mp chosen
    obtain ⟨known,same⟩ := mem_filter.mp chosen
    refine ⟨stored,?_⟩
    rintro _ ⟨⟩
    exact ⟨cursor,known,of_decide_eq_true same,follows⟩

theorem select_row (lists : Lists RawThreadMessage.place order key)
    (uuids : (messages.map RawThreadMessage.uuid).Nodup) (stored : row ∈ messages) :
    selectMessages messages (some row.uuid) order = messages.filter fun r => key row < key r := by
  unfold selectMessages
  simp only [filter_id uuids stored, join_singleton, RawThreadMessage.follows, lists.follows]

theorem messages_chained (lists : Lists RawThreadMessage.place order key)
    (uuids : (messages.map RawThreadMessage.uuid).Nodup) (keys : (messages.map key).Nodup)
    (db : OrderBy RawThreadMessage) :
    Chained RawThreadMessage.uuid fun after =>
      orderMessages db order (selectMessages messages after order) := by
  simp only [orderMessages, lists.sorts]
  refine chained_sort db keys ?_ fun row => select_row lists uuids
  intro after
  by_cases known : ∃ row ∈ messages, after = some row.uuid
  · obtain ⟨row,stored,rfl⟩ := known
    refine ⟨_,select_row lists uuids stored,?_⟩
    simp only [decide_eq_true_eq]
    exact fun a b upward selected => selected.trans upward
  · cases after with
    | none =>
      refine ⟨fun _ => true,?_,fun _ _ _ _ => rfl⟩
      rw [filter_true]
      rfl
    | some uuid =>
      refine ⟨fun _ => false,?_,fun _ _ _ selected => selected⟩
      rw [filter_false, eq_nil_iff_forall_not_mem]
      intro row mem
      obtain ⟨cursor,stored,rfl,-⟩ := (select_mem mem).2 uuid rfl
      exact known ⟨cursor,stored,rfl⟩

end

/-- No two items of the conversation share a uuid, or both the creation time and
    the serial id, and every item can be shown. -/
structure Unambiguous (R : Runtime) (t : ItemTables) (conversationId : Int) : Prop where
  uuids : ((t.items conversationId).map Item.uuid).Nodup
  places : ((t.items conversationId).map Item.place).Nodup
  readable : ∀ row ∈ conversationMessages t conversationId, ∃ item, messageToItem R row = .ok item

/-- Walking the pages ends, and returns every item of the conversation once, in
    the listing order. -/
def WalkedExactly (db : OrderBy RawThreadMessage) (R : Runtime) (t : ItemTables)
    (conversationId limit : Int) (order : Text) : Prop :=
  ∃ (data : List ConversationItem) (listing : List Item),
    Walk (fun after => listConversationItems db R t conversationId ⟨limit,after,order⟩)
      none (.ok data) ∧
    data.map ConversationItem.named = listing.map Item.named ∧
      listing.Perm (t.items conversationId) ∧
    listing.Pairwise fun a b => listedBefore order a.place b.place

section
variable {db : OrderBy RawThreadMessage} {R : Runtime} {t : ItemTables} {conversationId : Int}

theorem uuids_messages : (conversationMessages t conversationId).map RawThreadMessage.uuid =
    (t.items conversationId).map Item.uuid := by
  rw [← conversationMessages_items, map_map]
  rfl

theorem places_messages : (conversationMessages t conversationId).map RawThreadMessage.place =
    (t.items conversationId).map Item.place := by
  rw [← conversationMessages_items, map_map]
  rfl

variable {order : Text}

theorem walked_of_unambiguous {K : Type} [LinearOrder K] {key : RawThreadMessage → K}
    (lists : Lists RawThreadMessage.place order key) (unambiguous : Unambiguous R t conversationId)
    (limit : Int) :
    WalkedExactly db R t conversationId limit order := by
  obtain ⟨uuids,places,readable⟩ := unambiguous
  have items := conversationMessages_items t conversationId
  rw [← uuids_messages] at uuids
  rw [← places_messages] at places
  generalize stored : conversationMessages t conversationId = messages at *
  have keys : (messages.map key).Nodup :=
    pairwise_map.mpr ((pairwise_map.mp places).imp fun differ same =>
      differ (lists.collides _ _ same))
  have same := db.perm key messages
  obtain ⟨data,read⟩ := mapM_ok fun row mem => readable row (same.subset mem)
  have walked := walk_chained (messages_chained lists uuids keys db) (messageToItem_id (R := R))
    (show 0 < (paginationLimit limit).toNat from Int.pos_iff_toNat_pos.mp
      (paginationLimit_pos limit)) none
  refine ⟨data,(db.sort key messages).map RawThreadMessage.item,?_,?_,?_,?_⟩
  · simp only [listConversationItems_eq, stored]
    have whole : orderMessages db order (selectMessages messages none order) =
      db.sort key messages :=
      lists.sorts db messages
    rwa [whole, read] at walked
  · rw [map_map]
    exact ids_of_mapM (fun _ _ => messageToItem_named) read
  · rw [← items]
    exact same.map _
  · exact pairwise_map.mpr ((db.sorted key messages).imp fun upto => (lists.before _ _).mpr upto)

/-- Pages of one item show what a cursor leaves out or comes back to. -/
theorem unambiguous_of_walked (asc : order ≠ descOrder)
    (walked : WalkedExactly db R t conversationId 1 order) : Unambiguous R t conversationId := by
  obtain ⟨data,listing,walk,names,same,-⟩ := walked
  have one : (paginationLimit 1).toNat = 1 := rfl
  simp only [listConversationItems_eq, one] at walk
  have ids : data.map ConversationItem.id = listing.map Item.uuid := by
    have seconds := congrArg (List.map Prod.snd) names
    rw [map_map, map_map] at seconds
    rw [← map_congr_left fun item _ => item.named_id]
    exact seconds
  have uuids : ((t.items conversationId).map Item.uuid).Nodup := by
    rw [← (same.map Item.uuid).nodup_iff, ← ids]
    exact walk_ids_nodup walk
  have stored : ∀ row ∈ conversationMessages t conversationId,
      row.item ∈ t.items conversationId := by
    intro row mem
    rw [← conversationMessages_items]
    exact mem_map_of_mem mem
  have item_of_uuid : ∀ row ∈ conversationMessages t conversationId,
    ∀ i ∈ listing, row.uuid = i.uuid → row.item = i :=
    fun row mem i listed => inj_on_of_nodup_map uuids (stored row mem) (same.subset listed)
  refine ⟨uuids,?_,?_⟩
  · have chain := walk_chain messageToItem_id walk
    rw [ids, isChain_map] at chain
    have ascending : (listing.map fun i => toLex i.place).IsChain (· < ·) := by
      rw [isChain_map]
      refine chain.imp_of_mem_imp fun i j listed listed' => ?_
      rintro ⟨row,found,rowUuid⟩
      obtain ⟨mem,after⟩ := select_mem ((orderRows_perm db _ order _).subset found)
      obtain ⟨cursor,known,cursorUuid,follows⟩ := after i.uuid rfl
      rw [RawThreadMessage.follows, (lists_asc _ asc).follows, decide_eq_true_eq] at follows
      rw [← item_of_uuid cursor known i listed cursorUuid, ← item_of_uuid
        row mem j listed' rowUuid]
      exact follows
    rw [← (same.map Item.place).nodup_iff]
    exact pairwise_map.mpr ((pairwise_map.mp ascending.pairwise).imp fun before same =>
      ne_of_lt before (congrArg toLex same))
  · intro row mem
    have listed : row.item ∈ listing := same.symm.subset (stored row mem)
    have returned : row.uuid ∈ data.map ConversationItem.id := by
      rw [ids]
      exact mem_map_of_mem (f := Item.uuid) listed
    obtain ⟨item,inData,id⟩ := mem_map.mp returned
    obtain ⟨start,source,found,read⟩ := walk_read walk inData
    have known := (select_mem ((orderRows_perm db _ order _).subset found)).1
    have sameUuid : source.uuid = row.uuid := by rw [← id, messageToItem_id source item read]
    rw [← uuids_messages] at uuids
    exact ⟨item,inj_on_of_nodup_map uuids known mem sameUuid ▸ read⟩

end

/-- For every database, and whichever way it breaks ties. -/
theorem item_pages_exact_iff (db : OrderBy RawThreadMessage) (R : Runtime) (t : ItemTables)
    (conversationId : Int) :
    (∀ limit order, WalkedExactly db R t conversationId limit order) ↔
      Unambiguous R t conversationId := by
  constructor
  · intro walked
    exact unambiguous_of_walked (show ([] : Text) ≠ descOrder by decide) (walked 1 [])
  · intro unambiguous limit order
    obtain ⟨_,_,_,lists⟩ := exists_lists RawThreadMessage.place order
    exact walked_of_unambiguous lists unambiguous limit

def emptyItems : ItemTables :=
  ⟨.empty,.empty,.empty,.empty,.empty,nofun⟩

def userMessageAt (id : Int) (uuid : Nat) (createdAt : Int) : UserMessage :=
  ⟨id,numberedId uuid,7,replicate 12 0,createdAt⟩

def assistantMessageAt (id : Int) (uuid : Nat) (createdAt : Int) : AssistantMessage :=
  ⟨id,numberedId uuid,7,none,.completed,createdAt⟩

/-- Two rows with one serial id, stored in the same microsecond. -/
def tiedItems : ItemTables :=
  { emptyItems with
    userMessages := ⟨[userMessageAt 1 1 5],by decide,by decide +kernel⟩
    assistantMessages := ⟨[assistantMessageAt 1 2 5],by decide,by decide +kernel⟩ }

/-- The second user message was given the uuid of the answer before it. -/
def aliasedItems : ItemTables :=
  { emptyItems with
    userMessages := ⟨[userMessageAt 1 1 5,userMessageAt 2 2 7],by decide,by decide +kernel⟩
    assistantMessages := ⟨[assistantMessageAt 1 2 6],by decide,by decide +kernel⟩ }

/-- One item is passed over; one page is asked for forever. -/
theorem colliding_items_not_walked :
    ¬ WalkedExactly .stable openRuntime tiedItems 7 1 [] ∧
    ¬ WalkedExactly .stable openRuntime aliasedItems 7 1 descOrder := by
  constructor
  · rintro ⟨data,listing,walk,names,same,-⟩
    let shown : ConversationItem :=
      .message (numberedId 1) (some .completed) roleUser [.inputText []] (some 0)
    have stops :
      Walk (fun after => listConversationItems .stable openRuntime tiedItems 7 ⟨1,after,[]⟩) none
        (.ok [shown]) :=
      .onward (p := ⟨[shown],true,some (numberedId 1),some (numberedId 1)⟩) rfl rfl
        (.last (p := ⟨[],false,none,none⟩) rfl rfl)
    cases walk_unique stops walk
    have counts := congrArg List.length names
    rw [length_map, length_map, same.length_eq] at counts
    cases counts
  · rintro ⟨data,listing,walk,-⟩
    generalize Except.ok data = result at walk
    cases walk with
    | failed answer => cases answer
    | last answer none => cases answer; cases none
    | onward answer lastId walked =>
      cases answer
      cases lastId
      exact not_walk_of_loop rfl rfl walked

/-- A question and its answer, a page each, newest first. -/
theorem answered_question_walked : WalkedExactly .stable openRuntime
    { emptyItems with
      userMessages := ⟨[userMessageAt 1 1 5],by decide,by decide +kernel⟩
      assistantMessages := ⟨[assistantMessageAt 1 2 6],by decide,by decide +kernel⟩ }
        7 1 descOrder := by
  refine (item_pages_exact_iff .stable openRuntime _ 7).mpr ⟨by decide +kernel,by decide +kernel,?_⟩
    1 descOrder
  intro row mem
  rcases mem_cons.mp mem with rfl | mem
  · exact ⟨_,rfl⟩
  · rw [mem_singleton.mp mem]
    exact ⟨_,rfl⟩

end OpenSecret.Conversations
