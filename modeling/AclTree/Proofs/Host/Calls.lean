/-
Calls to a host, one after the other: the state and the record that they come
to (`Host.reached`, `Host.made`), the failures that they are answered with
(`Host.failure`), and calls that are made in order up to the first that fails
(`Host.Sweep`).
-/
import AclTree.Proofs.Host.Recording

namespace AclTree.Host

variable {σ α : Type}

namespace Call

/-- Binding a list and unbinding one; all other calls ask. -/
def isWrite : Call → Bool
  | .setPolicy .. | .removePolicy .. => true
  | _ => false

/-- The node for which a call is made, if the call tells. A kind is asked for on behalf of the parent,
a privilege on behalf of the node that is worked on. -/
def node? : Call → Option String
  | .parent path | .children path | .applicable path | .applied path => some path
  | .setPolicy path _ | .removePolicy path _ => some path
  | .kind _ | .privilege _ => none

end Call

/-- All these calls ask. -/
def Reads (calls : List Call) : Prop := ∀ call ∈ calls, call.isWrite = false

theorem Reads.append {left right : List Call} (h : Reads left) (h' : Reads right) :
    Reads (left ++ right) :=
  List.forall_mem_append.2 ⟨h, h'⟩

/-- What a call fails with, if it does. -/
def failed : Except RepositoryError α → Option RepositoryError
  | .ok _ => none
  | .error e => some e

@[simp] theorem failed_eq_some {out : Except RepositoryError α} {e : RepositoryError} :
    failed out = some e ↔ out = .error e := by
  cases out <;> simp [failed]

@[simp] theorem failed_eq_none {out : Except RepositoryError α} :
    failed out = none ↔ ∃ a, out = .ok a := by
  cases out <;> simp [failed]

variable (h : Host σ)

def failure : Call → σ → Option RepositoryError
  | .parent path, s => failed (h.parent path s).1
  | .children path, s => failed (h.children path s).1
  | .kind path, s => failed (h.kind path s).1
  | .applicable path, s => failed (h.applicable path s).1
  | .applied path, s => failed (h.applied path s).1
  | .setPolicy path acl, s => failed (h.setPolicy path acl s).1
  | .removePolicy path acl, s => failed (h.removePolicy path acl s).1
  | .privilege name, s => failed (h.privilege name s).1

/-- The state after these calls. -/
def reached (s : σ) (calls : List Call) : σ := calls.foldl (fun s call => h.after call s) s

/-- The record after these calls. -/
def made (t : Recorded σ) (calls : List Call) : Recorded σ :=
  calls.foldl (fun t call => t.push call (h.after call t.state)) t

def Recorded.calls (t : Recorded σ) : List Call := t.events.map (·.call)

variable {h} {s : σ} {t : Recorded σ} {calls calls' : List Call}

@[simp] theorem reached_nil : h.reached s [] = s := rfl

@[simp] theorem reached_cons {call : Call} :
    h.reached s (call :: calls) = h.reached (h.after call s) calls := rfl

@[simp] theorem reached_append :
    h.reached s (calls ++ calls') = h.reached (h.reached s calls) calls' := List.foldl_append

theorem reached_snoc {call : Call} :
    h.reached s (calls ++ [call]) = h.after call (h.reached s calls) := reached_append

@[simp] theorem made_nil : h.made t [] = t := rfl

theorem made_append : h.made t (calls ++ calls') = h.made (h.made t calls) calls' := List.foldl_append

@[simp] theorem made_state : (h.made t calls).state = h.reached t.state calls := by
  induction calls generalizing t with
  | nil => rfl
  | cons call calls ih => exact ih

@[simp] theorem calls_push (call : Call) (s : σ) : (t.push call s).calls = t.calls ++ [call] :=
  List.map_append

@[simp] theorem made_calls : (h.made t calls).calls = t.calls ++ calls := by
  induction calls generalizing t with
  | nil => exact (List.append_nil _).symm
  | cons call calls ih =>
    change (h.made (t.push call _) calls).calls = _
    rw [ih, calls_push, List.append_assoc, List.singleton_append]

/-! ## Up to the first failure -/

/-- From `s` on, the calls to be made, those of them that are made, and the failure of the last of
these: it is the first that fails, and if there is none all are made. -/
inductive Sweep (h : Host σ) : σ → List Call → List Call → Option RepositoryError → Prop where
  | done {s : σ} : Sweep h s [] [] none
  | stop {s : σ} {call : Call} {left : List Call} {e : RepositoryError} :
      h.failure call s = some e → Sweep h s (call :: left) [call] (some e)
  | next {s : σ} {call : Call} {left calls : List Call} {out : Option RepositoryError} :
      h.failure call s = none → Sweep h (h.after call s) left calls out →
      Sweep h s (call :: left) (call :: calls) out

theorem Sweep.isPrefix {planned : List Call} {out : Option RepositoryError}
    (hs : h.Sweep s planned calls out) : calls <+: planned := by
  induction hs with
  | done => exact List.nil_prefix
  | stop => exact List.cons_prefix_cons.2 ⟨rfl, List.nil_prefix⟩
  | next _ _ ih => exact List.cons_prefix_cons.2 ⟨rfl, ih⟩

end AclTree.Host
