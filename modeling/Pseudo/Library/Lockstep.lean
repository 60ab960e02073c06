import Mathlib.Data.List.Basic

/-!
# Requests and replies in step

A line carries requests one way and replies the other way, each in order. One side sends a request
only when it waits for nothing; the other side answers each request that it takes once, at once.
What a reply answers is part of the record of what was written.

* `InStep.send`, `InStep.serve`, `InStep.receive`: the three moves keep the line in step.
* `InStep.length`: as many replies are read as requests were sent, up to the one under way.
* `InStep.nth`: the `k`-th reply that is read answers the `k`-th request.
-/

variable {α β : Type}

/-- `requests` and `replies` are under way; the rest is the record of the line. -/
structure Line (α β : Type) where
  requests : List α
  replies : List β
  sent : List α
  taken : List α
  written : List (α × β)
  read : List β
  deriving DecidableEq, Repr

namespace Line

def start : Line α β := ⟨[], [], [], [], [], []⟩

def send (l : Line α β) (a : α) : Line α β :=
  { l with requests := l.requests ++ [a], sent := l.sent ++ [a] }

/-- The next request. -/
def take (l : Line α β) : Option (α × Line α β) :=
  match l.requests with
  | a :: rest => some (a, { l with requests := rest, taken := l.taken ++ [a] })
  | [] => none

/-- A reply to the request `a`. -/
def write (l : Line α β) (a : α) (b : β) : Line α β :=
  { l with replies := l.replies ++ [b], written := l.written ++ [(a, b)] }

/-- The next reply. -/
def receive (l : Line α β) : Option (β × Line α β) :=
  match l.replies with
  | b :: rest => some (b, { l with replies := rest, read := l.read ++ [b] })
  | [] => none

/-- The queues hold what is missing from the record, each request that was taken has its reply, and
one message is under way exactly when the sender waits. -/
structure InStep (l : Line α β) (waiting : Bool) : Prop where
  sent : l.sent = l.taken ++ l.requests
  written : l.written.map Prod.snd = l.read ++ l.replies
  answers : l.written.map Prod.fst = l.taken
  underWay : l.requests.length + l.replies.length = waiting.toNat

theorem inStep_start : InStep (start : Line α β) false := ⟨rfl, rfl, rfl, rfl⟩

section InStep
variable {l l' : Line α β} {waiting : Bool} {a : α} {b : β}

theorem InStep.send (h : InStep l false) (a : α) : InStep (l.send a) true := by
  obtain ⟨hsent, hwritten, hanswers, hunder⟩ := h
  refine ⟨?_, hwritten, hanswers, ?_⟩
  · show l.sent ++ [a] = l.taken ++ (l.requests ++ [a])
    rw [hsent, List.append_assoc]
  · show (l.requests ++ [a]).length + l.replies.length = 1
    rw [List.length_append, List.length_singleton]
    have hzero : l.requests.length + l.replies.length = 0 := hunder
    omega

/-- One reply for the request that is taken. -/
theorem InStep.serve (h : InStep l waiting) (ht : l.take = some (a, l')) (b : β) :
    InStep (l'.write a b) waiting := by
  obtain ⟨hsent, hwritten, hanswers, hunder⟩ := h
  unfold Line.take at ht
  cases hrequests : l.requests with
  | nil =>
    rw [hrequests] at ht
    cases ht
  | cons a' rest =>
    rw [hrequests] at ht hsent hunder
    obtain ⟨rfl, rfl⟩ := Prod.mk.inj (Option.some.inj ht)
    refine ⟨?_, ?_, ?_, ?_⟩
    · show l.sent = l.taken ++ [a'] ++ rest
      rw [hsent, List.append_assoc, List.singleton_append]
    · show (l.written ++ [(a', b)]).map Prod.snd = l.read ++ (l.replies ++ [b])
      rw [List.map_append, hwritten, List.append_assoc]
      rfl
    · show (l.written ++ [(a', b)]).map Prod.fst = l.taken ++ [a']
      rw [List.map_append, hanswers]
      rfl
    · show rest.length + (l.replies ++ [b]).length = waiting.toNat
      rw [← hunder, List.length_append, List.length_singleton, List.length_cons]
      omega

/-- Only a sender that waits finds a reply. -/
theorem InStep.receive (h : InStep l waiting) (hr : l.receive = some (b, l')) :
    waiting = true ∧ InStep l' false := by
  obtain ⟨hsent, hwritten, hanswers, hunder⟩ := h
  unfold Line.receive at hr
  cases hreplies : l.replies with
  | nil =>
    rw [hreplies] at hr
    cases hr
  | cons b' rest =>
    rw [hreplies] at hr hwritten hunder
    obtain ⟨rfl, rfl⟩ := Prod.mk.inj (Option.some.inj hr)
    rw [List.length_cons] at hunder
    cases waiting with
    | false => exact absurd hunder (Nat.succ_ne_zero _)
    | true =>
      have hrest : l.requests.length + rest.length = 0 := Nat.succ.inj hunder
      refine ⟨rfl, hsent, ?_, hanswers, hrest⟩
      show l.written.map Prod.snd = l.read ++ [b'] ++ rest
      rw [hwritten, List.append_assoc, List.singleton_append]

theorem InStep.length (h : InStep l waiting) :
    l.sent.length = l.read.length + waiting.toNat := by
  have hsent := congrArg List.length h.sent
  have hwritten := congrArg List.length h.written
  have hanswers := congrArg List.length h.answers
  have hunder := h.underWay
  rw [List.length_append] at hsent hwritten
  rw [List.length_map] at hwritten hanswers
  omega

/-- The `k`-th reply that is read answers the `k`-th request. -/
theorem InStep.nth (h : InStep l waiting) {k : Nat} (hk : l.read[k]? = some b) :
    ∃ a, l.sent[k]? = some a ∧ l.written[k]? = some (a, b) := by
  have hlt : k < l.read.length := (List.getElem?_eq_some_iff.mp hk).1
  have hsnd : (l.written.map Prod.snd)[k]? = some b := by
    rw [h.written, List.getElem?_append_left hlt, hk]
  rw [List.getElem?_map] at hsnd
  obtain ⟨⟨a, b'⟩, hpair, rfl⟩ := Option.map_eq_some_iff.mp hsnd
  have hfst : l.taken[k]? = some a := by
    rw [← h.answers, List.getElem?_map, hpair]
    rfl
  have htaken : k < l.taken.length := (List.getElem?_eq_some_iff.mp hfst).1
  refine ⟨a, ?_, hpair⟩
  rw [h.sent, List.getElem?_append_left htaken, hfst]

end InStep

end Line
