import CodexRouter.Lib.Run
import CodexRouter.Registry.Basic

set_option autoImplicit false

/-! # The indexes of the registry against the registered workers

`Roster` is what the registry is for: the worker last registered under each URL, with its id. The
maps by id and by URL follow it through every call (`Follows`). The four indexes do so as long as
no URL is registered again while it is registered (`Indexed`): a registration pushes the worker on
the indexes whether or not it replaces one, and takes no old entry away.
-/

namespace CodexRouter.Registry

open Lib

/-! ## The roster -/

/-- The workers registered, by URL. -/
structure Roster where
  workers : Table String (WorkerId × Worker)
  issued : Nat

namespace Roster

def new : Roster := ⟨Table.empty, 0⟩

def apply (s : Roster) : Call → Roster
  | .register worker =>
    match s.workers.get? worker.url with
    | some (id, _) => { s with workers := s.workers.insert worker.url (id, worker) }
    | none => ⟨s.workers.insert worker.url (s.issued, worker), s.issued + 1⟩
  | .remove workerId => { s with workers := s.workers.filter fun e => e.2.1 ≠ workerId }
  | .removeByUrl url => { s with workers := s.workers.erase url }

/-- The registered workers that serve a model. -/
def ofModel (s : Roster) (modelId : String) : List Worker :=
  (s.workers.values.map Prod.snd).filter fun w => w.modelId = modelId

end Roster

/-- The registry and the roster side by side. -/
structure System where
  registry : WorkerRegistry
  roster : Roster

def System.init : System := ⟨.new, .new⟩

def step (s : System) (call : Call) : Option System :=
  some ⟨s.registry.apply call, s.roster.apply call⟩

/-! ## Ids and URLs -/

/-- The maps by id and by URL hold what the roster holds. -/
structure Follows (r : WorkerRegistry) (s : Roster) : Prop where
  issued : r.issued = s.issued
  urls : ∀ url, r.urlToId.get? url = (s.workers.get? url).map Prod.fst
  workers : ∀ id w, r.workers.get? id = some w ↔ s.workers.get? w.url = some (id, w)
  keyed : ∀ url id w, s.workers.get? url = some (id, w) → w.url = url ∧ id < s.issued
  distinct : ∀ url url' id w w', s.workers.get? url = some (id, w) →
    s.workers.get? url' = some (id, w') → url = url'

variable {r : WorkerRegistry} {s : Roster}

theorem follows_new : Follows .new .new := by
  refine ⟨rfl, fun _ => rfl, fun id w => ⟨nofun, nofun⟩, fun _ _ _ h => ?_, fun _ _ _ _ _ h => ?_⟩
  · cases h
  · cases h

section

variable (h : Follows r s)

include h

/-- A worker comes under its URL, with an id that is nobody else's. -/
theorem Follows.insert {r' : WorkerRegistry} {s' : Roster} {id : WorkerId} {w : Worker}
    (hissued : r'.issued = s'.issued) (hle : s.issued ≤ s'.issued) (hid : id < s'.issued)
    (hurls : r'.urlToId = r.urlToId.insert w.url id) (hworkers : r'.workers = r.workers.insert id w)
    (hroster : s'.workers = s.workers.insert w.url (id, w))
    (hown : ∀ url w', s.workers.get? url = some (id, w') → url = w.url)
    (hkeep : ∀ id' w', s.workers.get? w.url = some (id', w') → id' = id) : Follows r' s' := by
  constructor
  · exact hissued
  · grind [cases Follows, Table.get?_insert]
  · intro id' w'
    rw [hworkers, hroster, Table.get?_insert, Table.get?_insert]
    by_cases hid' : id' = id
    · grind
    · rw [if_neg hid', h.workers]
      by_cases hurl : w'.url = w.url
      · grind
      · rw [if_neg hurl]
  · intro url id' w' hget
    rw [hroster, Table.get?_insert] at hget
    split at hget
    · grind
    · have hold := h.keyed url id' w' hget
      exact ⟨hold.1, lt_of_lt_of_le hold.2 hle⟩
  · intro url url' id' w₁ w₂ hget hget'
    rw [hroster, Table.get?_insert] at hget hget'
    split at hget <;> split at hget'
    · rename_i hurl hurl'
      rw [hurl, hurl']
    · grind
    · grind
    · exact h.distinct url url' id' w₁ w₂ hget hget'

/-- A worker goes from its URL and its id. -/
theorem Follows.erase {r' : WorkerRegistry} {s' : Roster} {id : WorkerId} {w : Worker}
    (hget : s.workers.get? w.url = some (id, w)) (hissued : r'.issued = r.issued)
    (hissued' : s'.issued = s.issued)
    (hurls : ∀ url, r'.urlToId.get? url = if url = w.url then none else r.urlToId.get? url)
    (hworkers : r'.workers = r.workers.erase id)
    (hroster : ∀ url, s'.workers.get? url = if url = w.url then none else s.workers.get? url) :
    Follows r' s' := by
  constructor
  · rw [hissued, hissued', h.issued]
  · grind [cases Follows]
  · intro id' w'
    rw [hworkers, hroster, Table.get?_erase]
    by_cases hid : id' = id
    · grind [cases Follows]
    · rw [if_neg hid, h.workers]
      by_cases hurl : w'.url = w.url
      · rw [if_pos hurl, hurl, hget]
        simp [Ne.symm hid]
      · rw [if_neg hurl]
  · grind [cases Follows]
  · grind [cases Follows]

/-- The URL under which the roster has an id. -/
theorem Follows.get?_remove {id : WorkerId} {w : Worker} (hw : r.workers.get? id = some w)
    (url : String) :
    (s.workers.filter fun e => e.2.1 ≠ id).get? url
      = if url = w.url then none else s.workers.get? url := by
  have hget := (h.workers id w).mp hw
  rw [Table.get?_filter]
  by_cases hurl : url = w.url
  · rw [if_pos hurl, hurl, hget]
    simp
  · rw [if_neg hurl]
    cases hold : s.workers.get? url with
    | none => rfl
    | some e =>
      have hid : e.1 ≠ id := fun hid => hurl (h.distinct _ _ id e.2 w (hid ▸ hold) hget)
      simp [hid]

/-- The roster does not have an id that the registry does not have. -/
theorem Follows.remove_none {id : WorkerId} (hw : r.workers.get? id = none) :
    (s.workers.filter fun e => e.2.1 ≠ id) = s.workers := by
  refine Table.ext (List.filter_eq_self.mpr fun ⟨url, id', w⟩ he => decide_eq_true ?_)
  rintro rfl
  have hget := Table.get?_eq_some_iff.mpr he
  rw [← (h.keyed _ _ _ hget).1, ← h.workers, hw] at hget
  cases hget

theorem follows_remove (id : WorkerId) :
    Follows (r.remove id).2 (s.apply (.remove id)) := by
  unfold WorkerRegistry.remove
  cases hw : r.workers.get? id with
  | none =>
    show Follows r ⟨s.workers.filter _, s.issued⟩
    rw [h.remove_none hw]
    exact h
  | some w =>
    exact h.erase ((h.workers id w).mp hw) rfl rfl (fun url => Table.get?_erase _ _ url) rfl
      (h.get?_remove hw)

theorem follows_removeByUrl (url : String) :
    Follows (r.removeByUrl url).2 (s.apply (.removeByUrl url)) := by
  unfold WorkerRegistry.removeByUrl
  have hurl := h.urls url
  cases hget : s.workers.get? url with
  | none =>
    rw [hget] at hurl
    rw [hurl]
    show Follows r ⟨s.workers.erase url, s.issued⟩
    rw [Table.erase_of_not_contains (by rw [Table.contains, hget]; rfl)]
    exact h
  | some e =>
    obtain ⟨id, w⟩ := e
    rw [hget] at hurl
    rw [hurl]
    have hkey := (h.keyed url id w hget).1
    subst hkey
    have hw := (h.workers id w).mpr hget
    show Follows (WorkerRegistry.remove { r with urlToId := r.urlToId.erase w.url } id).2 _
    unfold WorkerRegistry.remove
    rw [hw]
    refine h.erase hget rfl rfl (fun url' => ?_) rfl fun url' => Table.get?_erase _ _ url'
    show ((r.urlToId.erase w.url).erase w.url).get? url' = _
    rw [Table.get?_erase, Table.get?_erase]
    split <;> rfl

theorem follows_register (w : Worker) :
    Follows (r.register w).2 (s.apply (.register w)) := by
  unfold WorkerRegistry.register Roster.apply
  have hurl := h.urls w.url
  cases hget : s.workers.get? w.url with
  | none =>
    simp only [hurl, hget, Option.map_none]
    refine h.insert (by rw [h.issued]) (Nat.le_succ _) (Nat.lt_succ_self _) (by rw [h.issued])
      (by rw [h.issued]) rfl (fun url w' hold => ?_) (fun id' w' hold => ?_)
    · exact absurd (h.keyed _ _ _ hold).2 (lt_irrefl _)
    · rw [hget] at hold
      cases hold
  | some e =>
    obtain ⟨id, old⟩ := e
    simp only [hurl, hget, Option.map_some]
    refine h.insert h.issued le_rfl (h.keyed _ _ _ hget).2 rfl rfl rfl
      (fun url w' hold => ?_) (fun id' w' hold => ?_)
    · exact h.distinct _ _ _ _ _ hold hget
    · grind

end

theorem follows_step {s t : System} {call : Call} (h : Follows s.registry s.roster)
    (hs : step s call = some t) : Follows t.registry t.roster := by
  cases hs
  cases call with
  | register w => exact follows_register h w
  | remove id => exact follows_remove h id
  | removeByUrl url => exact follows_removeByUrl h url

/-! ## The indexes -/

section
variable {K : Type} [DecidableEq K] {f : Worker → K} {ix : Table K (List WorkerId)}
  {r' : WorkerRegistry} {id : WorkerId} {w : Worker}

/-- The ids of the registered workers with an attribute. -/
def idsBy (f : Worker → K) (r : WorkerRegistry) : K → WorkerId → Prop :=
  fun k id => ∃ w, r.workers.get? id = some w ∧ f w = k

theorem exact_push (h : Index.Exact ix (idsBy f r)) (hnew : r.workers.get? id = none)
    (hworkers : r'.workers = r.workers.insert id w) :
    Index.Exact (Index.push ix (f w) id) (idsBy f r') := by
  have hout : ¬ idsBy f r (f w) id := by
    rintro ⟨w', hw', -⟩
    rw [hnew] at hw'
    cases hw'
  refine (h.push hout).congr fun k id' => ?_
  unfold idsBy
  rw [hworkers, Table.get?_insert]
  by_cases hid : id' = id
  · subst hid
    simp [hnew, eq_comm]
  · simp [hid]

theorem exact_retain (h : Index.Exact ix (idsBy f r)) (hold : r.workers.get? id = some w)
    (hworkers : r'.workers = r.workers.erase id) :
    Index.Exact (Index.retain ix (f w) fun id' => id' ≠ id) (idsBy f r') := by
  refine h.retain.congr fun k id' => ?_
  unfold idsBy
  rw [hworkers, Table.get?_erase]
  by_cases hid : id' = id
  · subst hid
    simp [hold, eq_comm]
  · simp [hid]

end

/-- Each index lists the registered workers under their attribute, each once. -/
structure Indexed (r : WorkerRegistry) : Prop where
  models : Index.Exact r.modelWorkers (idsBy Worker.modelId r)
  fast : Index.Exact r.modelIndex fun m w => (∃ id, r.workers.get? id = some w) ∧ w.modelId = m
  types : Index.Exact r.typeWorkers (idsBy Worker.workerType r)
  connections : Index.Exact r.connectionWorkers (idsBy Worker.connectionMode r)

theorem indexed_new : Indexed .new := by
  refine ⟨Index.exact_empty ?_, Index.exact_empty ?_, Index.exact_empty ?_, Index.exact_empty ?_⟩
  · rintro m id ⟨w, hw, -⟩
    cases hw
  · rintro m w ⟨⟨id, hid⟩, -⟩
    cases hid
  · rintro m id ⟨w, hw, -⟩
    cases hw
  · rintro m id ⟨w, hw, -⟩
    cases hw

/-- The first registration of a URL. -/
theorem indexed_register (h : Follows r s) (hix : Indexed r) {w : Worker}
    (hnew : s.workers.get? w.url = none) : Indexed (r.register w).2 := by
  have hurl : r.urlToId.get? w.url = none := by rw [h.urls, hnew]; rfl
  have hid : r.workers.get? r.issued = none := by
    cases hw : r.workers.get? r.issued with
    | none => rfl
    | some w' =>
      have hlt := (h.keyed _ _ _ ((h.workers _ _).mp hw)).2
      rw [h.issued] at hlt
      exact absurd hlt (lt_irrefl _)
  have hout : ¬ ((∃ id, r.workers.get? id = some w) ∧ w.modelId = w.modelId) := by
    rintro ⟨⟨id, hw⟩, -⟩
    rw [(h.workers id w).mp hw] at hnew
    cases hnew
  unfold WorkerRegistry.register
  rw [hurl]
  refine ⟨exact_push hix.models hid rfl, (hix.fast.push hout).congr fun m w' => ?_,
    exact_push hix.types hid rfl, exact_push hix.connections hid rfl⟩
  show _ ↔ (∃ id, (r.workers.insert r.issued w).get? id = some w') ∧ w'.modelId = m
  simp only [Table.get?_insert]
  constructor
  · grind
  · grind

theorem indexed_remove (h : Follows r s) (hix : Indexed r) (id : WorkerId) :
    Indexed (r.remove id).2 := by
  unfold WorkerRegistry.remove
  cases hw : r.workers.get? id with
  | none => exact hix
  | some w =>
    refine ⟨exact_retain hix.models hw rfl, hix.fast.retain.congr fun m w' => ?_,
      exact_retain hix.types hw rfl, exact_retain hix.connections hw rfl⟩
    show _ ↔ (∃ id', (r.workers.erase id).get? id' = some w') ∧ w'.modelId = m
    simp only [Table.get?_erase]
    have hget := (h.workers id w).mp hw
    constructor
    · grind
    · rintro ⟨⟨id', hw'⟩, hm⟩
      split at hw'
      · cases hw'
      · rename_i hid
        refine ⟨⟨⟨id', hw'⟩, hm⟩, fun _ => decide_eq_true fun hurl => hid ?_⟩
        -- one URL has one id
        have hget' := (h.workers id' w').mp hw'
        rw [hurl, hget] at hget'
        cases hget'
        rfl

theorem indexed_removeByUrl (h : Follows r s) (hix : Indexed r) (url : String) :
    Indexed (r.removeByUrl url).2 := by
  have hremove : ∀ id, (WorkerRegistry.remove { r with urlToId := r.urlToId.erase url } id).2
      = { (r.remove id).2 with
          urlToId :=
            (WorkerRegistry.remove { r with urlToId := r.urlToId.erase url } id).2.urlToId }
      := by
    intro id
    unfold WorkerRegistry.remove
    cases r.workers.get? id <;> rfl
  unfold WorkerRegistry.removeByUrl
  cases r.urlToId.get? url with
  | none => exact hix
  | some id =>
    have hold := indexed_remove h hix id
    show Indexed (WorkerRegistry.remove { r with urlToId := r.urlToId.erase url } id).2
    rw [hremove]
    exact ⟨hold.models, hold.fast, hold.types, hold.connections⟩

/-! ## Agreement -/

theorem Follows.mem_ofModel (h : Follows r s) {m : String} {w : Worker} :
    w ∈ s.ofModel m ↔ (∃ id, r.workers.get? id = some w) ∧ w.modelId = m := by
  unfold Roster.ofModel Table.values
  rw [List.mem_filter, List.mem_map]
  constructor
  · rintro ⟨⟨⟨id, w⟩, he, rfl⟩, hm⟩
    obtain ⟨⟨url, e⟩, he, rfl⟩ := List.mem_map.mp he
    have hget := Table.get?_eq_some_iff.mpr he
    have hkey := (h.keyed url id w hget).1
    exact ⟨⟨id, (h.workers id w).mpr (hkey ▸ hget)⟩, of_decide_eq_true hm⟩
  · rintro ⟨⟨id, hw⟩, hm⟩
    have hget := Table.get?_eq_some_iff.mp ((h.workers id w).mp hw)
    exact ⟨⟨(id, w), List.mem_map_of_mem hget, rfl⟩, decide_eq_true hm⟩

theorem Follows.nodup_ofModel (h : Follows r s) (m : String) : (s.ofModel m).Nodup := by
  refine List.Nodup.filter _ ?_
  -- the URLs of the workers are the keys of the roster
  have hurls : ((s.workers.values.map Prod.snd).map Worker.url) = s.workers.keys := by
    unfold Table.values Table.keys
    rw [List.map_map, List.map_map]
    refine List.map_congr_left ?_
    rintro ⟨url, id, w⟩ he
    exact (h.keyed url id w (Table.get?_eq_some_iff.mpr he)).1
  refine List.Nodup.of_map Worker.url ?_
  rw [hurls]
  exact s.workers.nodup

/-- The workers of a list of ids are as many as the ids, for a worker has one id. -/
theorem Follows.nodup_getAllOf (h : Follows r s) {ids : List WorkerId} (hids : ids.Nodup) :
    (r.getAllOf ids).Nodup := by
  refine List.Nodup.filterMap ?_ hids
  intro id id' w hw hw'
  have hget := (h.workers id w).mp hw
  rw [(h.workers id' w).mp hw'] at hget
  cases hget
  rfl

/-- Both lookups return the registered workers of each model, each once. -/
def Agrees (s : System) : Prop :=
  ∀ m, (s.registry.getByModel m).Perm (s.roster.ofModel m) ∧
    (s.registry.getByModelFast m).Perm (s.roster.ofModel m)

theorem agrees_of_indexed {s : System} (h : Follows s.registry s.roster)
    (hix : Indexed s.registry) : Agrees s := by
  intro m
  constructor
  · refine (List.perm_ext_iff_of_nodup (h.nodup_getAllOf (hix.models.nodup m))
      (h.nodup_ofModel m)).mpr fun w => ?_
    rw [h.mem_ofModel]
    unfold WorkerRegistry.getAllOf
    rw [List.mem_filterMap]
    constructor
    · rintro ⟨id, hid, hw⟩
      obtain ⟨w', hw', hm⟩ := (hix.models.mem m id).mp hid
      rw [show s.registry.get id = some w' from hw'] at hw
      cases hw
      exact ⟨⟨id, hw'⟩, hm⟩
    · rintro ⟨⟨id, hw⟩, hm⟩
      exact ⟨id, (hix.models.mem m id).mpr ⟨w, hw, hm⟩, hw⟩
  · refine (List.perm_ext_iff_of_nodup (hix.fast.nodup m) (h.nodup_ofModel m)).mpr fun w => ?_
    rw [h.mem_ofModel]
    exact hix.fast.mem m w

/-- A URL registered again leaves the id twice under its model, or under a model that its worker
has no longer. -/
theorem not_agrees_register {s : System} (h : Follows s.registry s.roster)
    (hix : Indexed s.registry) {w : Worker} {e : WorkerId × Worker}
    (hold : s.roster.workers.get? w.url = some e) :
    ¬ Agrees ⟨s.registry.apply (.register w), s.roster.apply (.register w)⟩ := by
  obtain ⟨id, old⟩ := e
  have hfollows := follows_register h w
  have hurl : s.registry.urlToId.get? w.url = some id := by rw [h.urls, hold]; rfl
  have hworker : s.registry.workers.get? id = some old := by
    have hkey := (h.keyed _ _ _ hold).1
    exact (h.workers id old).mpr (hkey ▸ hold)
  have hmem : id ∈ Index.members s.registry.modelWorkers old.modelId :=
    (hix.models.mem _ _).mpr ⟨old, hworker, rfl⟩
  have hget : ((s.registry.register w).2).get id = some w := by
    unfold WorkerRegistry.register WorkerRegistry.get
    rw [hurl]
    exact (Table.get?_insert _ _ _ _).trans (if_pos rfl)
  have hmodel : ∀ m, (s.registry.register w).2.getByModel m
      = (s.registry.register w).2.getAllOf
          (if m = w.modelId then Index.members s.registry.modelWorkers w.modelId ++ [id]
            else Index.members s.registry.modelWorkers m) := by
    intro m
    unfold WorkerRegistry.getByModel
    rw [← Index.members_push]
    unfold WorkerRegistry.register
    rw [hurl]
  intro hagrees
  have hperm := (hagrees old.modelId).1
  have hlist : (s.registry.apply (.register w)).getByModel old.modelId = _ := hmodel old.modelId
  by_cases hm : old.modelId = w.modelId
  · -- the id is listed twice, and stands for the new worker both times
    rw [if_pos hm] at hlist
    have hnodup := hperm.nodup_iff.mpr (hfollows.nodup_ofModel old.modelId)
    rw [hlist] at hnodup
    unfold WorkerRegistry.getAllOf at hnodup
    rw [List.filterMap_append, List.nodup_append] at hnodup
    refine hnodup.2.2 w (List.mem_filterMap.mpr ⟨id, hm ▸ hmem, hget⟩) w ?_ rfl
    exact List.mem_filterMap.mpr ⟨id, List.mem_singleton_self id, hget⟩
  · rw [if_neg hm] at hlist
    have hin : w ∈ (s.registry.apply (.register w)).getByModel old.modelId := by
      rw [hlist]
      exact List.mem_filterMap.mpr ⟨id, hmem, hget⟩
    exact hm ((hfollows.mem_ofModel.mp (hperm.mem_iff.mp hin)).2).symm

/-- A URL is registered only while it is not. -/
def registersNew (s : System) : Call → Prop
  | .register worker => s.roster.workers.contains worker.url = false
  | _ => True

theorem indexed_step {s t : System} {call : Call}
    (h : Follows s.registry s.roster ∧ Indexed s.registry) (hnew : registersNew s call)
    (hs : step s call = some t) : Follows t.registry t.roster ∧ Indexed t.registry := by
  refine ⟨follows_step h.1 hs, ?_⟩
  cases hs
  cases call with
  | register w =>
    refine indexed_register h.1 h.2 ?_
    simpa [registersNew, Table.contains] using hnew
  | remove id => exact indexed_remove h.1 h.2 id
  | removeByUrl url => exact indexed_removeByUrl h.1 h.2 url

/-- **The model lookups of the registry.** In a sequence of calls, both lookups return the
registered workers of every model in every state reached, exactly when no call registers a URL
that is registered. -/
theorem lookups_agree_iff (calls : List Call) :
    (∀ pre s, pre <+: calls → run step System.init pre = some s → Agrees s)
      ↔ Along step registersNew System.init calls := by
  have hinit : Follows System.init.registry System.init.roster ∧ Indexed System.init.registry :=
    ⟨follows_new, indexed_new⟩
  constructor
  · intro hall
    have hok : ∀ s call t, Follows s.registry s.roster ∧ Indexed s.registry → Agrees t →
        step s call = some t → registersNew s call := by
      intro s call t h hagrees hs
      cases hs
      cases call with
      | register w =>
        show (s.roster.workers.get? w.url).isSome = false
        cases hold : s.roster.workers.get? w.url with
        | none => rfl
        | some e => exact absurd hagrees (not_agrees_register h.1 h.2 hold)
      | remove id => trivial
      | removeByUrl url => trivial
    obtain ⟨t, ht⟩ : ∃ t, run step System.init calls = some t :=
      run_total (fun _ _ => ⟨_, rfl⟩) _ _
    exact along_of_reached hok (fun _ _ _ => indexed_step) calls System.init t hinit ht hall
  · intro hal pre s hpre hs
    have h := run_invariant (fun _ _ _ => indexed_step) pre System.init s hinit
      (along_initial_segment hpre hal) hs
    exact agrees_of_indexed h.1 h.2

/-- A worker of the model "m" at the URL "u". -/
def workerAt (object : Nat) : Worker := ⟨object, "u", [("model_id", "m")], .regular, .http⟩

/-- A second registration of a URL gives two entries in each lookup, and not the same ones. -/
theorem register_again_duplicates :
    (run step System.init [.register (workerAt 1), .register (workerAt 2)]).map
        (fun s => (s.registry.getByModel "m", s.registry.getByModelFast "m", s.roster.ofModel "m"))
      = some ([workerAt 2, workerAt 2], [workerAt 1, workerAt 2], [workerAt 2]) := by
  decide +kernel

end CodexRouter.Registry
