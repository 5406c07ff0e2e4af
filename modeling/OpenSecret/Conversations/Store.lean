import OpenSecret.Prompt.ContextBuilder
import OpenSecret.Responses.Storage
import OpenSecret.Foundation.Keyset
import Mathlib.Data.Prod.Lex

/-!
The tables the conversation endpoints read, and what their list endpoints have
in common. A table carries the constraints of its schema: the serial id is the
primary key and the uuid is unique, each within the one table. Timestamps count
microseconds. Columns no list endpoint reads are left out.
-/
namespace OpenSecret.Conversations
open Framing Keyset Responses

structure Table (Row : Type) (id : Row → Int) (uuid : Row → Uuid) where
  rows : List Row
  ids : (rows.map id).Nodup
  uuids : (rows.map uuid).Nodup

def Table.empty {Row : Type} {id : Row → Int} {uuid : Row → Uuid} :
    Table Row id uuid := ⟨[],.nil,.nil⟩

structure UserMessage where
  id : Int
  uuid : Uuid
  conversationId : Int
  contentEnc : Bytes
  createdAt : Int

structure AssistantMessage where
  id : Int
  uuid : Uuid
  conversationId : Int
  contentEnc : Option Bytes
  status : ItemStatus
  createdAt : Int

structure ToolCall where
  id : Int
  uuid : Uuid
  conversationId : Int
  name : Text
  argumentsEnc : Option Bytes
  createdAt : Int

structure ToolOutput where
  id : Int
  uuid : Uuid
  conversationId : Int
  toolCallFk : Int
  outputEnc : Bytes
  createdAt : Int

structure ReasoningItem where
  id : Int
  uuid : Uuid
  conversationId : Int
  contentEnc : Option Bytes
  status : ItemStatus
  createdAt : Int

structure ItemTables where
  userMessages : Table UserMessage (·.id) (·.uuid)
  assistantMessages : Table AssistantMessage (·.id) (·.uuid)
  toolCalls : Table ToolCall (·.id) (·.uuid)
  toolOutputs : Table ToolOutput (·.id) (·.uuid)
  reasoningItems : Table ReasoningItem (·.id) (·.uuid)
  toolCallFks : ∀ output ∈ toolOutputs.rows, ∃ call ∈ toolCalls.rows, call.id = output.toolCallFk

structure ConversationProject where
  id : Int
  uuid : Uuid
  userId : Uuid

structure Conversation where
  id : Int
  uuid : Uuid
  userId : Uuid
  projectId : Option Int
  isPinned : Bool
  metadataEnc : Option Bytes
  createdAt : Int
  lastActivityAt : Int

/-- `decrypt_content` at JSON values, with the error every caller maps its errors
    to; `fromSlice` reads a JSON value. -/
def decryptContent (R : Runtime) (fromSlice : Bytes → Option Json) :
    Option Bytes → Except ApiError (Option Json)
  | none => .ok none
  | some encrypted =>
    match decryptWithKey R.primitives R.userKey encrypted with
    | .error _ => .error .internalServerError
    | .ok bytes =>
      match fromSlice bytes with
      | none => .error .internalServerError
      | some value => .ok (some value)

def timestamp (microseconds : Int) : Int := microseconds / 1000000

def defaultPaginationLimit : Int := 20
def maxPaginationLimit : Int := 100

def paginationLimit (limit : Int) : Int :=
  if limit ≤ 0 then defaultPaginationLimit else min limit maxPaginationLimit

theorem paginationLimit_pos (limit : Int) : 0 < paginationLimit limit := by
  unfold paginationLimit
  split
  · decide
  · rename_i positive
    exact lt_min (not_le.mp positive) (by decide)

def descOrder : Text := "desc"

def withinLimit {Row : Type} (limit : Int) (fetched : List Row) : Bool × List Row :=
  let hasMore := decide (fetched.length > limit.toNat)
  (hasMore,if hasMore then fetched.take limit.toNat else fetched)

def Paginator.getCursorIds {T ID : Type} (items : List T) (idExtractor : T → ID) :
    Option ID × Option ID :=
  (items.head?.map idExtractor,items.getLast?.map idExtractor)

theorem withinLimit_take {Row : Type} (limit : Int) (positive : 0 < limit) (found : List Row) :
    withinLimit limit (found.take (limit + 1).toNat) =
      (decide (limit.toNat < found.length),found.take limit.toNat) := by
  have next : (limit + 1).toNat = limit.toNat + 1 := by omega
  have more : limit.toNat < (found.take (limit.toNat + 1)).length ↔ limit.toNat < found.length := by
    rw [List.length_take]
    omega
  unfold withinLimit
  rw [next]
  simp only [gt_iff_lt, decide_eq_true_eq, take_lookahead]
  rw [decide_eq_decide.mpr more]

def followsCursor (order : Text) (row cursor : Int × Int) : Bool :=
  if order = descOrder then row.1 < cursor.1 ∨ row.1 = cursor.1 ∧ row.2 < cursor.2
  else row.1 > cursor.1 ∨ row.1 = cursor.1 ∧ row.2 > cursor.2

section
variable {Row : Type}

def orderRows (db : OrderBy Row) (place : Row → Int × Int) (order : Text) (rows : List Row) :
    List Row :=
  if order = descOrder then db.sort (fun r => OrderDual.toDual (toLex (place r))) rows
  else db.sort (fun r => toLex (place r)) rows

theorem orderRows_perm (db : OrderBy Row) (place : Row → Int × Int)
    (order : Text) (rows : List Row) :
    (orderRows db place order rows).Perm rows := by
  unfold orderRows
  split
  · exact db.perm _ rows
  · exact db.perm _ rows

def listedBefore (order : Text) (a b : Int × Int) : Prop :=
  if order = descOrder then toLex b ≤ toLex a else toLex a ≤ toLex b

/-- A key that sorts and compares as the queries with this order do. -/
structure Lists {K : Type} [LinearOrder K] (place : Row → Int × Int)
    (order : Text) (key : Row → K) : Prop where
  sorts : ∀ db rows, orderRows db place order rows = db.sort key rows
  follows : ∀ row cursor, followsCursor order (place row) (place cursor) =
    decide (key cursor < key row)
  before : ∀ a b, listedBefore order (place a) (place b) ↔ key a ≤ key b
  collides : ∀ a b, key a = key b → place a = place b

variable (place : Row → Int × Int) {order : Text}

theorem lists_desc (desc : order = descOrder) :
    Lists place order fun r => OrderDual.toDual (toLex (place r)) where
  sorts _ _ := if_pos desc
  follows row cursor := by
    rw [followsCursor, if_pos desc]
    refine decide_eq_decide.mpr ?_
    rw [OrderDual.toDual_lt_toDual, Prod.Lex.toLex_lt_toLex]
  before a b := by rw [listedBefore, if_pos desc]; rfl
  collides a b same := toLex_inj.mp (OrderDual.toDual_inj.mp same)

theorem lists_asc (asc : order ≠ descOrder) : Lists place order fun r => toLex (place r) where
  sorts _ _ := if_neg asc
  follows row cursor := by
    rw [followsCursor, if_neg asc]
    refine decide_eq_decide.mpr ?_
    rw [Prod.Lex.toLex_lt_toLex, eq_comm]
  before a b := by rw [listedBefore, if_neg asc]
  collides a b same := toLex_inj.mp same

variable (order) in
theorem exists_lists :
    ∃ (K : Type) (_ : LinearOrder K) (key : Row → K), Lists place order key :=
  if desc : order = descOrder then ⟨_,_,_,lists_desc place desc⟩
  else ⟨_,_,_,lists_asc place desc⟩

end

def openRuntime : Runtime where
  primitives := { transparentPrimitives with
    aesGcmDecrypt := fun _ _ ciphertext _ => some ciphertext }
  userKey := .filled 32 1
  countTokens := List.length
  fromUtf8Lossy _ := []
  parseJson _ := none
  printJson _ := []
  parseMessageContent text := some (.text text)
  newUuid _ := numberedId 0

end OpenSecret.Conversations
