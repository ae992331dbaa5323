import Mathlib.Data.List.Induction
import Mathlib.Data.List.Nodup
import SkinLint.Registration

/-!
# Registrations and their release

A host that never gives out an identifier twice is told of every registration before it is told of
its release, and of no release twice. What it was told to keep are, at any time, the registrations
of the sets that were not disposed of, in the order in which they were made.
-/
namespace SkinLint.Registration

/-- The registrations that are active once some events have happened. -/
def active (events : List Event) : List Handle :=
  events.foldl (fun before e =>
    match e with
    | .register handle _ => before ++ [handle]
    | .unregister id => before.filter (·.id != id)) []

def issuedIds (events : List Event) : List Nat :=
  events.filterMap fun
    | .register handle _ => some handle.id
    | .unregister _ => none

def releasedIds (events : List Event) : List Nat :=
  events.filterMap fun
    | .register _ _ => none
    | .unregister id => some id

def outstanding (sets : List (Option (List Handle))) : List Handle := sets.flatMap (·.getD [])

def Session.start {σ : Type} (host : σ) : Session σ := { host := { host } }

section Events

variable (events : List Event) (handles : List Handle)

def registered : List Event := handles.map (.register · language)

def released : List Event := handles.reverse.map fun handle => .unregister handle.id

theorem active_register (handle : Handle) (language : String) :
    active (events ++ [.register handle language]) = active events ++ [handle] := by
  simp [active]

theorem active_unregister (id : Nat) :
    active (events ++ [.unregister id]) = (active events).filter (·.id != id) := by
  simp [active]

theorem issuedIds_register (handle : Handle) (language : String) :
    issuedIds (events ++ [.register handle language]) = issuedIds events ++ [handle.id] := by
  simp [issuedIds]

theorem issuedIds_unregister (id : Nat) :
    issuedIds (events ++ [.unregister id]) = issuedIds events := by
  simp [issuedIds]

theorem active_registered : active (events ++ registered handles) = active events ++ handles := by
  induction handles using List.reverseRecOn with
  | nil => simp [registered]
  | append_singleton rest handle ih =>
    rw [registered, List.map_append, ← List.append_assoc, List.map_singleton, active_register]
    change active (events ++ registered rest) ++ [handle] = _
    rw [ih, List.append_assoc]

theorem active_released : active (events ++ released handles) =
    (active events).filter fun handle => handle.id ∉ handles.map Handle.id := by
  induction handles with
  | nil => simp [released]
  | cons handle rest ih =>
    have hcons : released (handle :: rest) = released rest ++ [.unregister handle.id] := by
      simp [released]
    rw [hcons, ← List.append_assoc, active_unregister, ih, List.filter_filter]
    apply List.filter_congr
    intro other _
    by_cases heq : other.id = handle.id <;> simp [heq]

theorem issuedIds_registered :
    issuedIds (events ++ registered handles) = issuedIds events ++ handles.map Handle.id := by
  simp [issuedIds, registered]

theorem issuedIds_released : issuedIds (events ++ released handles) = issuedIds events := by
  simp [issuedIds, released]

theorem releasedIds_registered : releasedIds (events ++ registered handles) = releasedIds events := by
  simp [releasedIds, registered]

theorem releasedIds_released : releasedIds (events ++ released handles) =
    releasedIds events ++ (handles.map Handle.id).reverse := by
  simp [releasedIds, released]

end Events

section Hosts

variable {σ : Type} [Host σ]

theorem map_provider_registerAll (host : σ) (ps : List Provider) :
    (registerAll host ps).2.map Handle.provider = ps := by
  induction ps generalizing host with
  | nil => rfl
  | cons p rest ih => exact congrArg (p :: ·) (ih _)

theorem events_registerAll (host : Recorded σ) (ps : List Provider) :
    (registerAll host ps).1.events = host.events ++ registered (registerAll host ps).2 := by
  induction ps generalizing host with
  | nil => simp [registerAll, registered]
  | cons p rest ih =>
    rw [registerAll]
    dsimp only
    rw [ih]
    simp [Host.register, registered]

theorem events_dispose (host : Recorded σ) (handles : List Handle) :
    (dispose host handles).events = host.events ++ released handles := by
  rw [dispose, released]
  generalize handles.reverse = order
  induction order generalizing host with
  | nil => simp
  | cons handle rest ih =>
    rw [List.foldl_cons, ih]
    simp [Host.unregister]

end Hosts

namespace Session

variable {σ : Type} [Host σ] (s : Session σ)

theorem step_activate (autoRefresh : Bool) :
    ∃ handles, handles.map Handle.provider = providers autoRefresh ∧
      (s.step (.activate autoRefresh)).host.events = s.host.events ++ registered handles ∧
      (s.step (.activate autoRefresh)).sets = s.sets ++ [some handles] :=
  ⟨_, map_provider_registerAll s.host (providers autoRefresh),
    events_registerAll s.host (providers autoRefresh), rfl⟩

theorem step_dispose {n : Nat} {handles : List Handle} (h : s.sets[n]? = some (some handles)) :
    (s.step (.dispose n)).host.events = s.host.events ++ released handles ∧
      (s.step (.dispose n)).sets = s.sets.set n none := by
  have hstep : s.step (.dispose n) = ⟨dispose s.host handles, s.sets.set n none⟩ := by
    simp only [step, h]
  rw [hstep]
  exact ⟨events_dispose s.host handles, rfl⟩

/-- Nothing is done for a set that is gone or was never made. -/
theorem step_dispose_of_gone {n : Nat} (h : ∀ handles, s.sets[n]? ≠ some (some handles)) :
    s.step (.dispose n) = s := by
  cases hset : s.sets[n]? with
  | none => simp only [step, hset]
  | some set =>
    cases set with
    | none => simp only [step, hset]
    | some handles => exact absurd hset (h handles)

theorem step_cases (request : Request) :
    (∃ handles, (s.step request).host.events = s.host.events ++ registered handles ∧
      (s.step request).sets = s.sets ++ [some handles]) ∨
    (∃ n handles, s.sets[n]? = some (some handles) ∧
      (s.step request).host.events = s.host.events ++ released handles ∧
      (s.step request).sets = s.sets.set n none) ∨
    s.step request = s := by
  cases request with
  | activate autoRefresh =>
    obtain ⟨handles, -, hevents, hsets⟩ := s.step_activate autoRefresh
    exact .inl ⟨handles, hevents, hsets⟩
  | dispose n =>
    by_cases h : ∃ handles, s.sets[n]? = some (some handles)
    · obtain ⟨handles, h⟩ := h
      obtain ⟨hevents, hsets⟩ := s.step_dispose h
      exact .inr (.inl ⟨n, handles, h, hevents, hsets⟩)
    · exact .inr (.inr (s.step_dispose_of_gone fun handles hset => h ⟨handles, hset⟩))

/-- A set is gone once it is disposed of, whether it was there or not. -/
theorem sets_step_dispose (n : Nat) : (s.step (.dispose n)).sets = s.sets.set n none := by
  by_cases h : ∃ handles, s.sets[n]? = some (some handles)
  · obtain ⟨handles, h⟩ := h
    exact (s.step_dispose h).2
  · rw [s.step_dispose_of_gone fun handles hset => h ⟨handles, hset⟩]
    apply List.ext_getElem?
    intro m
    rw [List.getElem?_set]
    by_cases hm : n = m
    · subst hm
      cases hset : s.sets[n]? with
      | none => simp_all
      | some set =>
        cases set with
        | none => simp [(List.getElem?_eq_some_iff.1 hset).1]
        | some handles => exact absurd ⟨handles, hset⟩ h
    · rw [if_neg hm]

theorem run_cons (request : Request) (requests : List Request) :
    s.run (request :: requests) = (s.step request).run requests := rfl

theorem run_concat (requests : List Request) (request : Request) :
    s.run (requests ++ [request]) = (s.run requests).step request := by
  simp [run]

theorem run_induction {P : Recorded σ → Prop}
    (hregister : ∀ host p language, P host → P (Host.register host p language).2)
    (hunregister : ∀ host id, P host → P (Host.unregister host id)) (h : P s.host)
    (requests : List Request) : P (s.run requests).host := by
  have hall (host : Recorded σ) (ps : List Provider) (hhost : P host) :
      P (registerAll host ps).1 := by
    induction ps generalizing host with
    | nil => exact hhost
    | cons p rest ih => exact ih _ (hregister host p language hhost)
  have hdispose (host : Recorded σ) (order : List Handle) (hhost : P host) :
      P (order.foldl (fun host handle => Host.unregister host handle.id) host) := by
    induction order generalizing host with
    | nil => exact hhost
    | cons handle rest ih => exact ih _ (hunregister host handle.id hhost)
  induction requests using List.reverseRecOn with
  | nil => exact h
  | append_singleton requests request ih =>
    rw [run_concat]
    generalize s.run requests = s at ih ⊢
    cases request with
    | activate autoRefresh => exact hall s.host (providers autoRefresh) ih
    | dispose n =>
      simp only [step]
      split
      · exact hdispose s.host _ ih
      · exact ih

end Session

section Accounting

def ReleasedLater (events : List Event) : Prop :=
  ∀ before id after, events = before ++ .unregister id :: after → id ∈ issuedIds before

theorem ReleasedLater.append {events more : List Event} (h : ReleasedLater events)
    (hmore : ∀ id, .unregister id ∈ more → id ∈ issuedIds events) :
    ReleasedLater (events ++ more) := by
  intro before id after heq
  obtain ⟨between, rfl, hbetween⟩ | ⟨between, hbefore, hbetween⟩ := List.append_eq_append_iff.1 heq
  · have hid := hmore id (by simp [hbetween])
    simp only [issuedIds, List.filterMap_append, List.mem_append] at hid ⊢
    exact .inl hid
  · cases between with
    | nil =>
      rw [List.append_nil] at hbefore
      rw [← hbefore]
      rw [List.nil_append] at hbetween
      exact hmore id (by simp [← hbetween])
    | cons e between =>
      obtain ⟨rfl, -⟩ := List.cons.inj hbetween
      exact h before id between hbefore

theorem ReleasedLater.issued {events : List Event} (h : ReleasedLater events) {id : Nat}
    (hid : id ∈ releasedIds events) : id ∈ issuedIds events := by
  have hmem : .unregister id ∈ events := by
    obtain ⟨e, he, hsome⟩ := List.mem_filterMap.1 hid
    cases e with
    | register handle language => cases hsome
    | unregister own =>
      obtain rfl : own = id := Option.some.inj hsome
      exact he
  obtain ⟨before, after, rfl⟩ := List.append_of_mem hmem
  have hbefore := h before id after rfl
  simp only [issuedIds, List.filterMap_append, List.mem_append] at hbefore ⊢
  exact .inl hbefore

/-- What is active was registered, and in that order. -/
theorem active_sublist (events : List Event) :
    ((active events).map Handle.id).Sublist (issuedIds events) := by
  induction events using List.reverseRecOn with
  | nil => exact .slnil
  | append_singleton events e ih =>
    cases e with
    | register handle language =>
      rw [active_register, issuedIds_register, List.map_append]
      exact ih.append (List.Sublist.refl _)
    | unregister id =>
      rw [active_unregister, issuedIds_unregister]
      exact (List.filter_sublist.map Handle.id).trans ih

/-- The registrations of a set stand together, and are gone when it is disposed of. -/
theorem outstanding_cut {sets : List (Option (List Handle))} {n : Nat} {handles : List Handle}
    (h : sets[n]? = some (some handles)) : ∃ above below,
      outstanding sets = above ++ (handles ++ below) ∧
      outstanding (sets.set n none) = above ++ below := by
  induction sets generalizing n with
  | nil => cases h
  | cons set rest ih =>
    cases n with
    | zero =>
      obtain rfl : set = some handles := Option.some.inj h
      exact ⟨[], outstanding rest, rfl, rfl⟩
    | succ n =>
      obtain ⟨above, below, hrest, hset⟩ := ih h
      refine ⟨set.getD [] ++ above, below, ?_, ?_⟩
      · rw [List.append_assoc, ← hrest]
        rfl
      · rw [List.append_assoc, ← hset]
        rfl

/-- If identifiers differ, only the registrations of that set are gone. -/
theorem outstanding_set {sets : List (Option (List Handle))} {n : Nat} {handles : List Handle}
    (h : sets[n]? = some (some handles)) (honce : ((outstanding sets).map Handle.id).Nodup) :
    outstanding (sets.set n none) =
      (outstanding sets).filter fun handle => handle.id ∉ handles.map Handle.id := by
  obtain ⟨above, below, hsets, hset⟩ := outstanding_cut h
  rw [hsets, List.map_append, List.map_append, List.nodup_append, List.nodup_append] at honce
  obtain ⟨-, ⟨-, -, hbelow⟩, habove⟩ := honce
  have hkept {l : List Handle} (hl : ∀ handle ∈ l, handle.id ∉ handles.map Handle.id) :
      l.filter (fun handle => handle.id ∉ handles.map Handle.id) = l :=
    List.filter_eq_self.2 fun handle hmem => by simpa using hl handle hmem
  have hdropped : handles.filter (fun handle => handle.id ∉ handles.map Handle.id) = [] :=
    List.filter_eq_nil_iff.2 fun handle hmem => by simpa using ⟨handle, hmem, rfl⟩
  rw [hset, hsets, List.filter_append, List.filter_append, hdropped, hkept, hkept, List.nil_append]
  · intro handle hmem hid
    exact hbelow _ hid _ (List.mem_map_of_mem hmem) rfl
  · intro handle hmem hid
    exact habove _ (List.mem_map_of_mem hmem) _ (List.mem_append_left _ hid) rfl

/-- What holds of a host's events and of the sets it gave out, as long as identifiers are fresh. -/
structure Accounted (events : List Event) (sets : List (Option (List Handle))) : Prop where
  kept : active events = outstanding sets
  live : ∀ handle ∈ active events, handle.id ∈ issuedIds events ∧ handle.id ∉ releasedIds events
  once : (releasedIds events).Nodup
  later : ReleasedLater events

variable {events : List Event} {sets : List (Option (List Handle))} (h : Accounted events sets)
include h

theorem Accounted.register {handles : List Handle}
    (hfresh : (issuedIds (events ++ registered handles)).Nodup) :
    Accounted (events ++ registered handles) (sets ++ [some handles]) := by
  rw [issuedIds_registered, List.nodup_append] at hfresh
  obtain ⟨-, -, hnew⟩ := hfresh
  constructor
  · rw [active_registered, h.kept]
    simp [outstanding]
  · intro handle hmem
    rw [issuedIds_registered, releasedIds_registered]
    rw [active_registered] at hmem
    obtain hold | hmem := List.mem_append.1 hmem
    · obtain ⟨hissued, hreleased⟩ := h.live handle hold
      exact ⟨List.mem_append_left _ hissued, hreleased⟩
    · have hid := List.mem_map_of_mem (f := Handle.id) hmem
      refine ⟨List.mem_append_right _ hid, fun hreleased => ?_⟩
      exact hnew _ (h.later.issued hreleased) _ hid rfl
  · rw [releasedIds_registered]
    exact h.once
  · apply h.later.append
    intro id hid
    simp [registered] at hid

theorem Accounted.release (hfresh : (issuedIds events).Nodup) {n : Nat} {handles : List Handle}
    (hset : sets[n]? = some (some handles)) :
    Accounted (events ++ released handles) (sets.set n none) := by
  have hids : ((outstanding sets).map Handle.id).Nodup := by
    rw [← h.kept]
    exact hfresh.sublist (active_sublist events)
  have hsub : handles.Sublist (active events) := by
    obtain ⟨above, below, hsets, -⟩ := outstanding_cut hset
    rw [h.kept, hsets]
    exact (List.sublist_append_left handles below).trans (List.sublist_append_right above _)
  constructor
  · rw [active_released, h.kept, outstanding_set hset hids]
  · intro handle hmem
    rw [issuedIds_released, releasedIds_released]
    rw [active_released, List.mem_filter] at hmem
    obtain ⟨hissued, hreleased⟩ := h.live handle hmem.1
    have hother : handle.id ∉ handles.map Handle.id := by simpa using hmem.2
    exact ⟨hissued, by simpa [hreleased] using hother⟩
  · rw [releasedIds_released, List.nodup_append]
    refine ⟨h.once, ?_, ?_⟩
    · rw [List.nodup_reverse]
      exact hids.sublist (h.kept ▸ hsub.map Handle.id)
    · rintro id hreleased _ hid rfl
      obtain ⟨handle, hmem, rfl⟩ := List.mem_map.1 (List.mem_reverse.1 hid)
      exact (h.live handle (hsub.subset hmem)).2 hreleased
  · apply h.later.append
    intro id hid
    obtain ⟨handle, hmem, hevent⟩ := List.mem_map.1 hid
    obtain rfl : handle.id = id := Event.unregister.inj hevent
    exact (h.live handle (hsub.subset (List.mem_reverse.1 hmem))).1

end Accounting

section Runs

variable {σ : Type} [Host σ]

theorem accounted_run (host : σ) (requests : List Request)
    (hfresh : (issuedIds ((Session.start host).run requests).host.events).Nodup) :
    Accounted ((Session.start host).run requests).host.events
      ((Session.start host).run requests).sets := by
  induction requests using List.reverseRecOn with
  | nil =>
    refine ⟨rfl, fun handle hmem => ?_, List.nodup_nil, fun before id after heq => ?_⟩
    · cases hmem
    · cases before <;> cases heq
  | append_singleton requests request ih =>
    rw [Session.run_concat] at hfresh ⊢
    generalize (Session.start host).run requests = s at ih hfresh ⊢
    obtain ⟨handles, hevents, hsets⟩ | ⟨n, handles, hset, hevents, hsets⟩ | hsame :=
      s.step_cases request
    · rw [hevents] at hfresh
      rw [hevents, hsets]
      have hbefore := hfresh
      rw [issuedIds_registered] at hbefore
      exact (ih hbefore.of_append_left).register hfresh
    · rw [hevents, issuedIds_released] at hfresh
      rw [hevents, hsets]
      exact (ih hfresh).release hfresh hset
    · rw [hsame] at hfresh ⊢
      exact ih hfresh

theorem issuedIds_run_dispose (s : Session σ) (order : List Nat) :
    issuedIds (s.run (order.map .dispose)).host.events = issuedIds s.host.events := by
  induction order generalizing s with
  | nil => rfl
  | cons n rest ih =>
    rw [List.map_cons, Session.run_cons, ih]
    by_cases h : ∃ handles, s.sets[n]? = some (some handles)
    · obtain ⟨handles, h⟩ := h
      rw [(s.step_dispose h).1, issuedIds_released]
    · rw [s.step_dispose_of_gone fun handles hset => h ⟨handles, hset⟩]

theorem sets_run_dispose (s : Session σ) (order : List Nat) :
    (s.run (order.map .dispose)).sets = order.foldl (fun sets n => sets.set n none) s.sets := by
  induction order generalizing s with
  | nil => rfl
  | cons n rest ih => rw [List.map_cons, Session.run_cons, ih, s.sets_step_dispose, List.foldl_cons]

theorem outstanding_eq_nil {sets : List (Option (List Handle))} {order : List Nat}
    (h : ∀ n < sets.length, n ∈ order ∨ sets[n]? = some none) :
    outstanding (order.foldl (fun sets n => sets.set n none) sets) = [] := by
  induction order generalizing sets with
  | nil =>
    refine List.flatMap_eq_nil_iff.2 fun set hset => ?_
    obtain ⟨n, hn⟩ := List.mem_iff_getElem?.1 hset
    have hgone := (h n (List.getElem?_eq_some_iff.1 hn).1).resolve_left List.not_mem_nil
    rw [Option.some.inj (hn.symm.trans hgone)]
    rfl
  | cons first rest ih =>
    apply ih
    intro n hn
    rw [List.length_set] at hn
    obtain hmem | hgone := h n hn
    · obtain rfl | hmem := List.mem_cons.1 hmem
      · exact .inr (by simp [hn])
      · exact .inl hmem
    · right
      rw [List.getElem?_set]
      by_cases heq : first = n <;> simp_all

end Runs

section Numbering

/-- A registry that keeps what it was told to keep, and counts from one. -/
structure InStep (r : Recorded Registry) : Prop where
  kept : r.host.active = active r.events
  counted : issuedIds r.events = List.range' 1 r.host.issued

theorem inStep_run (requests : List Request) :
    InStep ((Session.start ({} : Registry)).run requests).host := by
  apply Session.run_induction
  · intro r p language h
    refine ⟨?_, ?_⟩
    · exact (congrArg (· ++ _) h.kept).trans (active_register _ _ language).symm
    · refine (issuedIds_register r.events ⟨r.host.issued + 1, p⟩ language).trans ?_
      change _ = List.range' 1 (r.host.issued + 1)
      rw [h.counted, List.range'_1_concat, Nat.add_comm]
  · intro r id h
    constructor
    · exact (congrArg (List.filter _) h.kept).trans (active_unregister _ id).symm
    · exact (issuedIds_unregister _ id).trans h.counted
  · exact ⟨rfl, rfl⟩

end Numbering

/-- However sets of registrations are made and disposed of, with a host that gives out each
identifier once: the active registrations are those of the sets that are left, in the order they
were made; nothing is released twice or before it is registered; making a set registers its
providers, disposing of one releases its registrations, the latest first, and touches no other; and
nothing is active once all sets are disposed of. -/
theorem registrations_released_once {σ : Type} [Host σ] (host : σ) (requests : List Request)
    (hfresh : (issuedIds ((Session.start host).run requests).host.events).Nodup) :
    let s := (Session.start host).run requests
    active s.host.events = outstanding s.sets ∧
    (releasedIds s.host.events).Nodup ∧
    (∀ before id after, s.host.events = before ++ .unregister id :: after →
      id ∈ issuedIds before) ∧
    (∀ autoRefresh, ∃ handles, handles.map Handle.provider = providers autoRefresh ∧
      (s.step (.activate autoRefresh)).host.events =
        s.host.events ++ handles.map (.register · language) ∧
      (s.step (.activate autoRefresh)).sets = s.sets ++ [some handles]) ∧
    (∀ n handles, s.sets[n]? = some (some handles) →
      (s.step (.dispose n)).host.events =
        s.host.events ++ handles.reverse.map (fun handle => .unregister handle.id) ∧
      (s.step (.dispose n)).sets = s.sets.set n none) ∧
    ∀ order : List Nat, (∀ n < s.sets.length, n ∈ order) →
      active (s.run (order.map .dispose)).host.events = [] := by
  intro s
  have h := accounted_run host requests hfresh
  refine ⟨h.kept, h.once, h.later, s.step_activate, fun n handles => s.step_dispose,
    fun order horder => ?_⟩
  have hrun : s.run (order.map .dispose) =
      (Session.start host).run (requests ++ order.map .dispose) := by
    simp [s, Session.run]
  have hlast := accounted_run host (requests ++ order.map .dispose) (by
    rw [← hrun, issuedIds_run_dispose]
    exact hfresh)
  rw [← hrun] at hlast
  rw [hlast.kept, sets_run_dispose]
  exact outstanding_eq_nil fun n hn => .inl (horder n hn)

/-- Two sets that overlap in time; the first is disposed of, then a third one is made. -/
theorem registrations_released_once_overlapping :
    let s := (Session.start ({} : Registry)).run
      [.activate true, .activate false, .dispose 0, .activate false]
    (issuedIds s.host.events).Nodup ∧ active s.host.events = outstanding s.sets ∧
    s.host.host.active.map Handle.id = [7, 8, 9, 10, 11, 12, 13, 14, 15, 16] ∧
    releasedIds s.host.events = [6, 5, 4, 3, 2, 1] ∧
    active (s.run ([2, 1, 0].map .dispose)).host.events = [] := by
  intro s
  have hfresh : (issuedIds s.host.events).Nodup := by
    rw [(inStep_run _).counted]
    exact List.nodup_range'
  obtain ⟨hkept, -, -, -, -, hall⟩ := registrations_released_once ({} : Registry) _ hfresh
  exact ⟨hfresh, hkept, by decide, by decide, hall [2, 1, 0] (by decide)⟩

end SkinLint.Registration
