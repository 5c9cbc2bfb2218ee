import CodexRouter.Lib.Index
import CodexRouter.Lib.Run

set_option autoImplicit false

/-! # The in-memory store of responses

`router/src/data_connector/response_memory_store.rs`: the responses by id, and for each user the
ids of the responses stored for the user. Both maps are behind one lock, so that the calls run one
after another. The index by user follows the responses as long as no response is stored again
while it belongs to a user: storing pushes the id on the list of the new user, and takes it from no
list.
-/

namespace CodexRouter.Responses

open Lib

abbrev ResponseId := String

/-- The fields of a response that the store reads. -/
structure StoredResponse where
  id : ResponseId
  createdAt : Nat
  user : Option String
  deriving DecidableEq

structure InnerStore where
  responses : Table ResponseId StoredResponse
  userIndex : Table String (List ResponseId)

/-- The index after storing an id for its user, if it has one. -/
def pushUser (ix : Table String (List ResponseId)) (user : Option String) (id : ResponseId) :
    Table String (List ResponseId) :=
  match user with
  | some user => Index.push ix user id
  | none => ix

/-- The index after deleting an id of its user, if it has one. -/
def dropUser (ix : Table String (List ResponseId)) (user : Option String) (id : ResponseId) :
    Table String (List ResponseId) :=
  match user with
  | some user => Index.retain ix user fun id' => id' ≠ id
  | none => ix

namespace InnerStore

def new : InnerStore := ⟨Table.empty, Table.empty⟩

/-- `generated` is the id that `ResponseId::new` returns, if it is called. -/
def storeResponse (s : InnerStore) (response : StoredResponse) (generated : ResponseId) :
    ResponseId × InnerStore :=
  -- a response under an id that is taken replaces the old one, whose index entry stays
  let response := if response.id.isEmpty then { response with id := generated } else response
  (response.id,
    ⟨s.responses.insert response.id response, pushUser s.userIndex response.user response.id⟩)

def getResponse (s : InnerStore) (id : ResponseId) : Option StoredResponse := s.responses.get? id

def deleteResponse (s : InnerStore) (id : ResponseId) : InnerStore :=
  match s.responses.get? id with
  | none => s
  | some response => ⟨s.responses.erase id, dropUser s.userIndex response.user id⟩

/-- Newest first; responses of one time stay in the order of the index. -/
def listUserResponses (s : InnerStore) (user : String) (limit : Option Nat) :
    List StoredResponse :=
  match s.userIndex.get? user with
  | none => []
  | some ids =>
    let responsesWithTime := ids.filterMap fun id =>
      (s.responses.get? id).map fun r => (r.createdAt, id)
    let sorted := responsesWithTime.insertionSort fun a b => b.1 ≤ a.1
    (sorted.take (limit.getD sorted.length)).filterMap fun e => s.responses.get? e.2

def deleteUserResponses (s : InnerStore) (user : String) : Nat × InnerStore :=
  match s.userIndex.get? user with
  | none => (0, s)
  | some ids =>
    (ids.length,
      -- every id of the list goes, whoever the response belongs to now
      ⟨ids.foldl (fun responses id => responses.erase id) s.responses, s.userIndex.erase user⟩)

end InnerStore

inductive Call
  | storeResponse (response : StoredResponse) (generated : ResponseId)
  | deleteResponse (id : ResponseId)
  | deleteUserResponses (user : String)

def step (s : InnerStore) : Call → Option InnerStore
  | .storeResponse response generated => some (s.storeResponse response generated).2
  | .deleteResponse id => some (s.deleteResponse id)
  | .deleteUserResponses user => some (s.deleteUserResponses user).2

/-! ## Lists of users -/

/-- The responses stored for a user. -/
def InnerStore.ofUser (s : InnerStore) (user : String) : List StoredResponse :=
  s.responses.values.filter fun r => r.user = some user

/-- Listing returns the responses of each user, each once, and deleting takes no other. -/
structure Served (s : InnerStore) : Prop where
  listed : ∀ user, (s.listUserResponses user none).Perm (s.ofUser user)
  spared : ∀ user id r, s.getResponse id = some r → r.user ≠ some user →
    (s.deleteUserResponses user).2.getResponse id = some r

/-- The responses stand under their ids. -/
def Keyed (s : InnerStore) : Prop := ∀ id r, s.responses.get? id = some r → r.id = id

/-- The index lists the ids of the responses of each user, each once. -/
structure Indexed (s : InnerStore) : Prop where
  keyed : Keyed s
  users : Index.Exact s.userIndex fun user id =>
    ∃ r, s.responses.get? id = some r ∧ r.user = some user

variable {s : InnerStore} {user : String}

theorem indexed_new : Indexed .new := by
  refine ⟨fun id r h => ?_, Index.exact_empty ?_⟩
  · cases h
  · rintro user id ⟨r, hr, -⟩
    cases hr

/-! ## What the calls read and leave -/

theorem listUserResponses_perm (s : InnerStore) (user : String) :
    (s.listUserResponses user none).Perm
      ((Index.members s.userIndex user).filterMap s.responses.get?) := by
  unfold InnerStore.listUserResponses Index.members
  cases s.userIndex.get? user with
  | none => exact .refl _
  | some ids =>
    simp only [Option.getD_none, Option.getD_some, List.take_length]
    refine ((List.perm_insertionSort _ _).filterMap _).trans ?_
    rw [List.filterMap_filterMap]
    have hread : (fun id => ((s.responses.get? id).map fun r => (r.createdAt, id)).bind
        fun e => s.responses.get? e.2) = s.responses.get? := by
      funext id
      cases hget : s.responses.get? id with
      | none => rfl
      | some r => exact hget
    rw [hread]

theorem get?_foldl_erase (ids : List ResponseId) (t : Table ResponseId StoredResponse)
    (id : ResponseId) :
    (ids.foldl (fun t id => t.erase id) t).get? id = if id ∈ ids then none else t.get? id := by
  induction ids generalizing t with
  | nil => simp
  | cons id' ids ih => grind [Table.get?_erase]

theorem responses_deleteUserResponses (s : InnerStore) (user : String) (id : ResponseId) :
    (s.deleteUserResponses user).2.responses.get? id
      = if id ∈ Index.members s.userIndex user then none else s.responses.get? id := by
  unfold InnerStore.deleteUserResponses Index.members
  cases s.userIndex.get? user with
  | none => simp
  | some ids => exact get?_foldl_erase ids s.responses id

theorem mem_ofUser (h : Keyed s) {r : StoredResponse} :
    r ∈ s.ofUser user ↔ s.responses.get? r.id = some r ∧ r.user = some user := by
  unfold InnerStore.ofUser Table.values
  rw [List.mem_filter, List.mem_map, decide_eq_true_eq]
  constructor
  · rintro ⟨⟨⟨id, r⟩, he, rfl⟩, hr⟩
    have hget := Table.get?_eq_some_iff.mpr he
    exact ⟨h id r hget ▸ hget, hr⟩
  · rintro ⟨hget, hr⟩
    exact ⟨⟨(r.id, r), Table.get?_eq_some_iff.mp hget, rfl⟩, hr⟩

theorem nodup_ofUser (h : Keyed s) (user : String) : (s.ofUser user).Nodup := by
  refine List.Nodup.filter _ (List.Nodup.of_map StoredResponse.id ?_)
  -- the ids of the responses are the keys of their table
  have hids : s.responses.values.map StoredResponse.id = s.responses.keys := by
    unfold Table.values Table.keys
    rw [List.map_map]
    refine List.map_congr_left ?_
    rintro ⟨id, r⟩ he
    exact h id r (Table.get?_eq_some_iff.mpr he)
  rw [hids]
  exact s.responses.nodup

theorem served_of_indexed (h : Indexed s) : Served s := by
  refine ⟨fun user => (listUserResponses_perm s user).trans ?_, fun user id r hr huser => ?_⟩
  · have hnodup : ((Index.members s.userIndex user).filterMap s.responses.get?).Nodup := by
      refine List.Nodup.filterMap ?_ (h.users.nodup user)
      intro id id' r hr hr'
      exact (h.keyed id r hr).symm.trans (h.keyed id' r hr')
    refine (List.perm_ext_iff_of_nodup hnodup (nodup_ofUser h.keyed user)).mpr fun r => ?_
    rw [List.mem_filterMap, mem_ofUser h.keyed]
    constructor
    · rintro ⟨id, hid, hr⟩
      obtain ⟨r', hr', huser⟩ := (h.users.mem user id).mp hid
      rw [hr] at hr'
      cases hr'
      exact ⟨h.keyed id r hr ▸ hr, huser⟩
    · rintro ⟨hr, huser⟩
      exact ⟨r.id, (h.users.mem user r.id).mpr ⟨r, hr, huser⟩, hr⟩
  · show (s.deleteUserResponses user).2.responses.get? id = some r
    rw [responses_deleteUserResponses, if_neg, ← hr]
    · rfl
    · intro hid
      obtain ⟨r', hr', huser'⟩ := (h.users.mem user id).mp hid
      rw [show s.responses.get? id = some r from hr] at hr'
      cases hr'
      exact huser huser'

/-! ## What the calls keep -/

section
variable {ix : Table String (List ResponseId)} {R : String → ResponseId → Prop}

theorem members_pushUser (ix : Table String (List ResponseId)) (owner : Option String)
    (id : ResponseId) (user : String) :
    Index.members (pushUser ix owner id) user
      = if owner = some user then Index.members ix user ++ [id] else Index.members ix user := by
  cases owner with
  | none => rfl
  | some owner =>
    show Index.members (Index.push ix owner id) user = _
    rw [Index.members_push]
    by_cases huser : user = owner
    · simp [huser]
    · simp [huser, Ne.symm huser]

theorem exact_pushUser {id : ResponseId} (h : Index.Exact ix R) (owner : Option String)
    (hout : ∀ user, ¬ R user id) :
    Index.Exact (pushUser ix owner id) fun user id' =>
      R user id' ∨ owner = some user ∧ id' = id := by
  cases owner with
  | none => exact h.congr fun user id' => by simp
  | some owner =>
    exact (h.push (hout owner)).congr fun user id' => by
      rw [Option.some.injEq, eq_comm (a := user)]

theorem exact_dropUser (h : Index.Exact ix R) (owner : Option String) (id : ResponseId) :
    Index.Exact (dropUser ix owner id) fun user id' =>
      R user id' ∧ (owner = some user → id' ≠ id) := by
  cases owner with
  | none => exact h.congr fun user id' => by simp
  | some owner =>
    exact h.retain.congr fun user id' => by
      rw [Option.some.injEq, eq_comm (a := user), decide_eq_true_eq]

end

/-- The response as it is stored. -/
def stored (response : StoredResponse) (generated : ResponseId) : StoredResponse :=
  if response.id.isEmpty then { response with id := generated } else response

theorem storeResponse_eq (s : InnerStore) (response : StoredResponse) (generated : ResponseId) :
    (s.storeResponse response generated).2
      = ⟨s.responses.insert (stored response generated).id (stored response generated),
          pushUser s.userIndex (stored response generated).user (stored response generated).id⟩ :=
  rfl

/-- A response is stored under an id that is free, or whose response belongs to no user. -/
def storesUnowned (s : InnerStore) : Call → Prop
  | .storeResponse response generated =>
    (s.responses.get? (stored response generated).id).bind StoredResponse.user = none
  | _ => True

theorem keyed_storeResponse (h : Keyed s) (response : StoredResponse) (generated : ResponseId) :
    Keyed (s.storeResponse response generated).2 := by
  rw [storeResponse_eq]
  intro id r hget
  rw [Table.get?_insert] at hget
  split at hget
  · grind
  · exact h id r hget

theorem indexed_storeResponse (h : Indexed s) {response : StoredResponse} {generated : ResponseId}
    (hfree : (s.responses.get? (stored response generated).id).bind StoredResponse.user = none) :
    Indexed (s.storeResponse response generated).2 := by
  refine ⟨keyed_storeResponse h.keyed response generated, ?_⟩
  rw [storeResponse_eq]
  generalize stored response generated = r at hfree
  have hout : ∀ user, ¬ ∃ r', s.responses.get? r.id = some r' ∧ r'.user = some user := by grind
  refine (exact_pushUser h.users r.user hout).congr fun user id => ?_
  rw [Table.get?_insert]
  by_cases hid : id = r.id
  · have := hout user
    simp [hid, this]
  · simp [hid]

theorem indexed_deleteResponse (h : Indexed s) (id : ResponseId) :
    Indexed (s.deleteResponse id) := by
  unfold InnerStore.deleteResponse
  cases hr : s.responses.get? id with
  | none => exact h
  | some r =>
    constructor
    · intro id' r' hget
      rw [Table.get?_erase] at hget
      split at hget
      · cases hget
      · exact h.keyed id' r' hget
    · refine (exact_dropUser h.users r.user id).congr fun user id' => ?_
      rw [Table.get?_erase]
      by_cases hid : id' = id
      · simp [hid, hr]
      · simp [hid]

theorem indexed_deleteUserResponses (h : Indexed s) (user : String) :
    Indexed (s.deleteUserResponses user).2 := by
  have hread := responses_deleteUserResponses s user
  have hmem := h.users.mem user
  constructor
  · intro id r hget
    rw [hread] at hget
    split at hget
    · cases hget
    · exact h.keyed id r hget
  · cases hids : s.userIndex.get? user with
    | none =>
      have hsame : (s.deleteUserResponses user).2 = s := by
        unfold InnerStore.deleteUserResponses
        rw [hids]
      rw [hsame]
      exact h.users
    | some ids =>
      have hindex : (s.deleteUserResponses user).2.userIndex = s.userIndex.erase user := by
        unfold InnerStore.deleteUserResponses
        rw [hids]
      rw [hindex]
      refine h.users.erase.congr fun user' id => ?_
      rw [hread]
      -- what the list of the user has is gone, and it had all of the user's
      by_cases hid : id ∈ Index.members s.userIndex user
      · obtain ⟨r, hr, huser⟩ := (hmem id).mp hid
        simp [hid, hr, huser, eq_comm]
      · grind

theorem indexed_step {t : InnerStore} {call : Call} (h : Indexed s) (hok : storesUnowned s call)
    (hs : step s call = some t) : Indexed t := by
  cases call with
  | storeResponse response generated =>
    cases hs
    exact indexed_storeResponse h hok
  | deleteResponse id =>
    cases hs
    exact indexed_deleteResponse h id
  | deleteUserResponses user =>
    cases hs
    exact indexed_deleteUserResponses h user

/-- A response stored again stays on the list of its user: twice, or with a response of another. -/
theorem not_served_storeResponse (h : Indexed s) {response old : StoredResponse}
    {generated : ResponseId} {owner : String}
    (hold : s.responses.get? (stored response generated).id = some old)
    (howner : old.user = some owner) : ¬ Served (s.storeResponse response generated).2 := by
  have hone := nodup_ofUser (keyed_storeResponse h.keyed response generated) owner
  rw [storeResponse_eq] at hone ⊢
  generalize stored response generated = r at hold hone
  have hmem : r.id ∈ Index.members s.userIndex owner := (h.users.mem _ _).mpr ⟨old, hold, howner⟩
  have hread : (s.responses.insert r.id r).get? r.id = some r :=
    (Table.get?_insert _ _ _ _).trans (if_pos rfl)
  have hmembers := members_pushUser s.userIndex r.user r.id owner
  intro hserved
  have hperm := (listUserResponses_perm _ owner).symm.trans (hserved.listed owner)
  simp only [hmembers] at hperm
  by_cases huser : r.user = some owner
  · -- the id is listed twice for the owner
    rw [if_pos huser, List.filterMap_append] at hperm
    have hnodup := hperm.nodup_iff.mpr hone
    refine (List.nodup_append.mp hnodup).2.2 r (List.mem_filterMap.mpr ⟨r.id, hmem, hread⟩) r ?_ rfl
    exact List.mem_filterMap.mpr ⟨r.id, List.mem_singleton_self _, hread⟩
  · rw [if_neg huser] at hperm
    have hin := hperm.mem_iff.mp (List.mem_filterMap.mpr ⟨r.id, hmem, hread⟩)
    exact huser (of_decide_eq_true (List.mem_filter.mp hin).2)

/-- **Users and their responses.** In a sequence of calls, every user's list is right and every
deletion spares the others in every state reached, exactly when no response is stored again while
it belongs to a user. -/
theorem users_served_iff (calls : List Call) :
    (∀ pre s, pre <+: calls → run step InnerStore.new pre = some s → Served s)
      ↔ Along step storesUnowned InnerStore.new calls := by
  constructor
  · intro hall
    have hok : ∀ s call t, Indexed s → Served t → step s call = some t →
        storesUnowned s call := by
      intro s call t h hserved hs
      cases call with
      | storeResponse response generated =>
        cases hs
        show (s.responses.get? (stored response generated).id).bind StoredResponse.user = none
        cases hold : s.responses.get? (stored response generated).id with
        | none => rfl
        | some old =>
          cases howner : old.user with
          | none => exact howner
          | some owner => exact absurd hserved (not_served_storeResponse h hold howner)
      | deleteResponse id => trivial
      | deleteUserResponses user => trivial
    have htotal : ∀ s call, ∃ t, step s call = some t := by rintro s (_ | _ | _) <;> exact ⟨_, rfl⟩
    obtain ⟨t, ht⟩ := run_total htotal InnerStore.new calls
    exact along_of_reached hok (fun _ _ _ => indexed_step) calls InnerStore.new t indexed_new ht
      hall
  · intro hal pre s hpre hs
    exact served_of_indexed (run_invariant (fun _ _ _ => indexed_step) pre InnerStore.new s
      indexed_new (along_initial_segment hpre hal) hs)

/-- A response that changed its user is listed for the old one and deleted with the old one's. -/
theorem restored_response_deleted :
    (run step InnerStore.new
        [.storeResponse ⟨"r", 0, some "a"⟩ "", .storeResponse ⟨"r", 1, some "b"⟩ ""]).map
        (fun s => (s.listUserResponses "a" none, s.getResponse "r",
          (s.deleteUserResponses "a").2.getResponse "r"))
      = some ([⟨"r", 1, some "b"⟩], some ⟨"r", 1, some "b"⟩, none) := by
  decide +kernel

end CodexRouter.Responses
