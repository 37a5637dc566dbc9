/-
Appending, or nothing at all, or the end of the program.

An append that accepts a refusal takes several steps: it computes the next capacity, asks for
memory, sets the capacity and puts the element in. It can be broken off in the middle
(`Buffer.attempt`), by a request that is refused or by a storage that is refused the memory it
takes for the element. The request comes before everything that changes the buffer, so a refused
append leaves the buffer as it was. It may be made again, and any number of refused calls anywhere
among others leave no trace: without them everything goes on as before (`Buffer.session_unrefused`).

That an append is either made or refused does not hold. A full buffer asks for its slots, but one
that has room left is believed to have them, and a copy does not: memory that is refused there is
refused to the storage, and the program is at its end (`Buffer.offer_not_append`). Where a storage
is granted what it takes by itself, nothing else can happen than that the element is appended or
the append refused (`Buffer.IsHoused.append?_eq`).
-/
import ScriptFront.Proofs.AppendOutcomes
import ScriptFront.Proofs.StatefulRuns

set_option autoImplicit false

namespace ScriptFront.Buffer

variable {α : Type} [Element α]

/-! ## Step by step -/

/-- Why the steps are broken off. -/
inductive Break where
  | refused (fault : StorageFault)
  -- Nobody is there any more to be told of it.
  | aborted

/-- Steps that change a buffer, and may be broken off. -/
abbrev Steps (α : Type) := ExceptT Break (StateM (Buffer α))

/-- Asks for memory up to a capacity, if there are not slots enough. -/
def request (granted : Bool) (requested : Nat) : Steps α Unit := do
  let b ← getThe (Buffer α)
  if b.storage.lacks (requested - b.size) && !granted then
    throw (.refused (.allocation requested))
  else set { b with storage := b.storage.reserve (requested - b.size) }

/-- Grows if the buffer is full. -/
def ready (granted : Bool) : Steps α Unit := do
  let b ← getThe (Buffer α)
  if b.isFull then
    let requested := growCapacity b.capacity
    request granted requested
    modify fun b => { b with capacity := requested }

/-- Puts an element in, for which a full storage takes memory without being asked. -/
def insert (granted : Bool) (a : α) : Steps α Unit := do
  let b ← getThe (Buffer α)
  if b.storage.isFull && !granted then throw .aborted else set (b.push a)

/-- Grows if the buffer is full, and then puts the element in. -/
def attempt (granted : Bool) (a : α) : Steps α Unit := do
  ready granted
  insert granted a

/-- How the steps end if they come to the outcome, and the buffer they leave. -/
def Outcome.steps (b : Buffer α) : Outcome α → Except Break Unit × Buffer α
  | accepted b' => (.ok (), b')
  | refused fault => (.error (.refused fault), b)
  | aborted => (.error .aborted, b.readied)

/-- Growing is broken off by a refused request and has changed nothing then. -/
theorem run_ready (granted : Bool) (b : Buffer α) :
    (ready granted).run b =
      if b.isFull = true ∧ b.storage.lacks b.shortage = true ∧ granted = false then
        (.error (.refused (.allocation (growCapacity b.capacity))), b)
      else (.ok (), b.readied) := by
  have hsteps : (ready granted).run b =
      (if b.isFull then
        (do request granted (growCapacity b.capacity)
            modify fun b' => { b' with capacity := growCapacity b.capacity } : Steps α Unit)
      else pure ()).run b := rfl
  have hrequest : (request granted (growCapacity b.capacity)).run b =
      (if b.storage.lacks b.shortage && !granted then
        throw (.refused (.allocation (growCapacity b.capacity)))
      else set { b with storage := b.storage.reserve b.shortage } : Steps α Unit).run b := rfl
  have hrefusal : (b.storage.lacks b.shortage && !granted) = true ↔
      b.storage.lacks b.shortage = true ∧ granted = false := by
    rw [Bool.and_eq_true, Bool.not_eq_true']
  rw [hsteps, readied]
  by_cases hfull : b.isFull = true
  · rw [if_pos hfull, if_pos hfull]
    by_cases hrefused : b.storage.lacks b.shortage = true ∧ granted = false
    · rw [if_pos (hrefusal.mpr hrefused)] at hrequest
      rw [if_pos ⟨hfull, hrefused⟩]
      exact run_bind_of_error hrequest
    · rw [if_neg (mt hrefusal.mp hrefused)] at hrequest
      rw [if_neg fun hall => hrefused hall.2]
      exact run_bind_of_ok hrequest
  · rw [if_neg hfull, if_neg hfull, if_neg fun hall => hfull hall.1]
    rfl

theorem run_insert (granted : Bool) (b : Buffer α) (a : α) :
    (insert granted a).run b =
      if b.storage.isFull = true ∧ granted = false then (.error .aborted, b)
      else (.ok (), b.push a) := by
  have hsteps : (insert granted a).run b =
      (if b.storage.isFull && !granted then throw .aborted else set (b.push a) :
        Steps α Unit).run b := rfl
  rw [hsteps]
  cases b.storage.isFull <;> cases granted <;> rfl

/-- **The steps come to the outcome of the append**, broken off or not. -/
theorem run_attempt (granted : Bool) (b : Buffer α) (a : α) :
    (attempt granted a).run b = (b.offer granted a).steps b := by
  have hready := run_ready granted b
  rw [offer_eq_ite]
  by_cases hrefused : b.isFull = true ∧ b.storage.lacks b.shortage = true ∧ granted = false
  · rw [if_pos hrefused] at hready ⊢
    exact run_bind_of_error hready
  · rw [if_neg hrefused] at hready ⊢
    have hinsert : (attempt granted a).run b = (insert granted a).run b.readied :=
      run_bind_of_ok hready
    rw [hinsert, run_insert, append_eq_push, overflows]
    split
    · rfl
    · rfl

/-- Where a storage is granted what it takes by itself, an append is refused or made. -/
theorem append?_eq_ite (granted : Bool) (b : Buffer α) (a : α) :
    b.append? granted a =
      if b.isFull = true ∧ b.storage.lacks b.shortage = true ∧ granted = false then
        .error (.allocation (growCapacity b.capacity))
      else .ok (b.append a) := by
  rw [append?, makeRoom?_eq, append_eq_push]
  split
  · rfl
  · rfl

namespace IsHoused

variable {b : Buffer α}

/-- A request is refused to a full buffer that has fewer slots than its next capacity. -/
theorem append?_eq (h : b.IsHoused) (granted : Bool) (a : α) :
    b.append? granted a =
      if b.size = b.capacity ∧ b.storage.slots < growCapacity b.capacity ∧ granted = false then
        .error (.allocation (growCapacity b.capacity))
      else .ok (b.append a) := by
  have hisFull : b.isFull = true ↔ b.size = b.capacity := decide_eq_true_iff
  rw [append?_eq_ite]
  simp only [hisFull, h.lacks_iff]

/-- Elements that take no room are always appended. -/
theorem offer_eq_of_unsized (h : b.IsHoused) (hroom : b.size < slotLimit)
    (hunsized : Element.isZeroSized α = true) (granted : Bool) (a : α) :
    b.offer granted a = .accepted (b.append a) := by
  have hslots := h.unsized hunsized
  have hlimit := growCapacity_le b.capacity
  rw [h.offer_eq hroom, if_neg (by omega), if_neg (by omega)]

end IsHoused

/-! ## Among other calls -/

section Calls

variable {β : Type}

/-- What can be asked of a buffer: an operation, or anything that is read off it. -/
inductive Call (α β : Type) where
  | change (op : Op α)
  | read (f : Buffer α → β)

/-- What is answered to a call. -/
inductive Reply (β : Type) where
  | done
  | told (x : β)
  | refused (fault : StorageFault)
  -- There is no answer, and no further call.
  | aborted
deriving DecidableEq

namespace Reply

def isRefused : Reply β → Bool
  | refused _ => true
  | done | told _ | aborted => false

def isAborted : Reply β → Bool
  | aborted => true
  | done | told _ | refused _ => false

/-- What is answered once the steps of an append have ended. -/
def ofSteps : Except Break Unit → Reply β
  | .ok () => done
  | .error (.refused fault) => refused fault
  | .error .aborted => aborted

end Reply

namespace Call

/-- The answer to a call and the buffer after it. An append that accepts a refusal is made step by
step. -/
def perform (b : Buffer α) : Call α β → Reply β × Buffer α
  | change (.offer granted a) =>
    (.ofSteps ((attempt granted a).run b).1, ((attempt granted a).run b).2)
  | change op => (.done, op.run b)
  | read f => (.told (f b), b)

def reply (b : Buffer α) (call : Call α β) : Reply β := (call.perform b).1

def run (b : Buffer α) (call : Call α β) : Buffer α := (call.perform b).2

/-- A call that is refused leaves the buffer as it was. -/
theorem run_of_refused {call : Call α β} {b : Buffer α} (h : (call.reply b).isRefused = true) :
    call.run b = b := by
  cases call with
  | read f => rfl
  | change op =>
    cases op with
    | offer granted a =>
      rw [reply, perform, run_attempt] at h
      rw [run, perform, run_attempt]
      cases houtcome : b.offer granted a with
      | refused fault => rfl
      | accepted b' =>
        rw [houtcome] at h
        contradiction
      | aborted =>
        rw [houtcome] at h
        contradiction
    | renew | append _ | extend _ | release | copy => contradiction

end Call

/-- Calls one after another: what is answered, and the buffer at the end, if the program is not at
its end before. -/
def session (b : Buffer α) : List (Call α β) → List (Reply β) × Option (Buffer α)
  | [] => ([], some b)
  | call :: calls =>
    if (call.reply b).isAborted then ([.aborted], none)
    else (call.reply b :: (session (call.run b) calls).1, (session (call.run b) calls).2)

/-- The calls without those that are refused. -/
def unrefused (b : Buffer α) : List (Call α β) → List (Call α β)
  | [] => []
  | call :: calls =>
    if (call.reply b).isRefused then unrefused (call.run b) calls
    else call :: unrefused (call.run b) calls

/-- **Refused calls leave no trace**: without them the others are answered as they were, and come to
the same end. -/
theorem session_unrefused (b : Buffer α) (calls : List (Call α β)) :
    b.session (b.unrefused calls) =
      ((b.session calls).1.filter fun reply => !reply.isRefused, (b.session calls).2) := by
  induction calls generalizing b with
  | nil => rfl
  | cons call calls ih =>
    rw [unrefused]
    cases hreply : call.reply b with
    | refused fault =>
      have hsame : call.run b = b := Call.run_of_refused (by rw [hreply, Reply.isRefused])
      have hsession : b.session (call :: calls) =
          (.refused fault :: (b.session calls).1, (b.session calls).2) := by
        rw [session, hreply, hsame]
        rfl
      rw [hsession, hsame]
      exact ih b
    | done | told x =>
      rw [Reply.isRefused, if_neg Bool.noConfusion, session, hreply, ih, session, hreply]
      rfl
    | aborted =>
      rw [Reply.isRefused, if_neg Bool.noConfusion, session, hreply, session, hreply]
      rfl

end Calls

/-! ## After any operations -/

/-- **An append that accepts a refusal is an append or nothing, unless it ends the program.** After
any operations and while memory is refused there are three cases. A buffer as large as its capacity
with fewer slots than the next one is refused: the fault tells the next capacity, and the steps,
broken off there, leave the buffer as it was. A buffer with room left and no slot ends the program.
Any other takes the element, as it always does when memory is granted, and is then what an append
makes of it. Elements that take no room are never refused, and a full buffer of other elements
always is where slots are given exactly. If the storage is granted what it takes by itself the second
case is an append as well. Refused calls may be left out of any calls, and neither the end nor an
answer to another call is changed by that. -/
theorem offer_after (ops : List (Op α)) (hfits : Fits empty ops)
    (hroom : ((empty : Buffer α).after ops).size < slotLimit) :
    let b := (empty : Buffer α).after ops
    (∀ granted a,
      if b.size = b.capacity ∧ b.storage.slots < growCapacity b.capacity ∧ granted = false then
        b.offer granted a = .refused (.allocation (growCapacity b.capacity)) ∧
          (attempt granted a).run b =
            (.error (.refused (.allocation (growCapacity b.capacity))), b)
      else if b.size < b.capacity ∧ b.storage.slots = b.size ∧ granted = false then
        b.offer granted a = .aborted ∧ (attempt granted a).run b = (.error .aborted, b)
      else
        b.offer granted a = .accepted (b.append a) ∧
          (attempt granted a).run b = (.ok (), b.append a)) ∧
      (Element.isZeroSized α = true → ∀ granted a, b.offer granted a = .accepted (b.append a)) ∧
      (Element.isZeroSized α = false → Element.IsExact α → b.size = b.capacity →
        ∀ a, b.offer false a = .refused (.allocation (growCapacity b.capacity))) ∧
      (∀ granted a, b.append? granted a =
        if b.size = b.capacity ∧ b.storage.slots < growCapacity b.capacity ∧ granted = false then
          .error (.allocation (growCapacity b.capacity))
        else .ok (b.append a)) ∧
      ∀ (β : Type) (calls : List (Call α β)),
        b.session (b.unrefused calls) =
          ((b.session calls).1.filter fun reply => !reply.isRefused, (b.session calls).2) := by
  intro b
  have hhoused : b.IsHoused := IsHoused.isKept.after .empty hfits
  refine ⟨?_, ?_, ?_, ?_, ?_⟩
  · intro granted a
    have houtcome := hhoused.offer_eq hroom granted a
    have hsteps := run_attempt granted b a
    rw [houtcome] at hsteps
    split
    · next hrefused =>
      rw [if_pos hrefused] at houtcome hsteps
      exact ⟨houtcome, hsteps⟩
    · next haccepted =>
      rw [if_neg haccepted] at houtcome hsteps
      split
      · next haborted =>
        rw [if_pos haborted] at houtcome hsteps
        rw [Outcome.steps, readied_of_free (Nat.ne_of_lt haborted.1)] at hsteps
        exact ⟨houtcome, hsteps⟩
      · next hmade =>
        rw [if_neg hmade] at houtcome hsteps
        exact ⟨houtcome, hsteps⟩
  · intro hunsized granted a
    exact hhoused.offer_eq_of_unsized hroom hunsized granted a
  · intro hsized hexact hfull a
    have hthrifty : b.IsThrifty := (IsThrifty.isKept hexact).after .empty hfits
    rw [hthrifty.offer_eq hsized hroom, if_pos hfull]
  · exact hhoused.append?_eq
  · intro β calls
    exact session_unrefused b calls

/-- A full copy is refused twice and then left as it was, and grows when memory is granted. Elements
that take no room are never refused. -/
theorem offer_after_copy :
    let ops : List (Op Nat) := [.extend (List.range 8), .copy]
    let calls : List (Call Nat Nat) := [.change (.offer false 8), .read size,
      .change (.offer false 8), .change (.offer true 9), .read size]
    let b := (empty : Buffer Nat).after ops
    let units : List (Op Unit) := [.extend (List.replicate 8 ()), .copy]
    let u := (empty : Buffer Unit).after units
    (Fits empty ops ∧ b.size < slotLimit ∧ b.offer false 7 = .refused (.allocation 16) ∧
      (attempt false 8).run b = (.error (.refused (.allocation 16)), b) ∧
      (attempt true 9).run b = (.ok (), b.append 9) ∧
      b.append? false 8 = .error (.allocation 16) ∧
      (b.session (b.unrefused calls)).1 = [.told 8, .done, .told 9] ∧
      (b.session (b.unrefused calls)).2.map toList = some (List.range 8 ++ [9])) ∧
    Fits empty units ∧ u.size < slotLimit ∧ u.offer false () = .accepted (u.append ()) := by
  intro ops calls b units u
  have hfits : Fits empty ops := by decide
  have hroom : b.size < slotLimit := by decide
  obtain ⟨hattempt, -, hexact, hspared, hcalls⟩ := offer_after ops hfits hroom
  have hfull : b.size = b.capacity := by decide
  have hslots : b.storage.slots < growCapacity b.capacity := by decide
  have hnext : growCapacity b.capacity = 16 := by decide
  have hsized : Element.isZeroSized Nat = false := rfl
  have hrefused := hattempt false 8
  have hgranted := hattempt true 9
  rw [if_pos ⟨hfull, hslots, rfl⟩, hnext] at hrefused
  rw [if_neg fun hall => Bool.noConfusion hall.2.2,
    if_neg fun hall => Bool.noConfusion hall.2.2] at hgranted
  have halways := hexact hsized (Element.isExact_default Nat) hfull 7
  rw [hnext] at halways
  have hasked := hspared false 8
  rw [if_pos ⟨hfull, hslots, rfl⟩, hnext] at hasked
  have hfitsUnits : Fits empty units := by decide
  have hroomUnits : u.size < slotLimit := by decide
  refine ⟨⟨hfits, hroom, halways, hrefused.2, hgranted.2, hasked, ?_, ?_⟩, hfitsUnits,
    hroomUnits, ?_⟩
  · rw [hcalls Nat calls]
    decide +kernel
  · rw [hcalls Nat calls]
    decide +kernel
  · exact (offer_after units hfitsUnits hroomUnits).2.1 rfl false ()

/-- **An append that accepts a refusal is not always an append or nothing.** One element is appended
and the buffer is copied. The copy has room left and no slot, so the next element is neither
refused nor appended while memory is refused: the program ends, and no later call is answered. -/
theorem offer_not_append :
    let ops : List (Op Nat) := [.append 1, .copy]
    let calls : List (Call Nat Nat) := [.change (.offer false 2), .read size]
    let b := (empty : Buffer Nat).after ops
    Fits empty ops ∧ b.size = 1 ∧ b.capacity = 8 ∧ Element.isZeroSized Nat = false ∧
      b.offer false 2 = .aborted ∧ b.offer false 2 ≠ .accepted (b.append 2) ∧
      (attempt false 2).run b = (.error .aborted, b) ∧ b.session calls = ([.aborted], none) := by
  intro ops calls b
  have haborted : b.offer false 2 = .aborted := rfl
  refine ⟨by decide, rfl, rfl, rfl, haborted, ?_, rfl, rfl⟩
  rw [haborted]
  simp

end ScriptFront.Buffer
