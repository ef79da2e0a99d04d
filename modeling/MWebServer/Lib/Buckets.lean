import Mathlib

/-!
# Hash buckets

A bucket table sends every hash to a chain of entries, newest first.  Whatever the
hash function, a chain is the history of insertions filtered by its hash
(`build_apply`), so that looking a key up in its own chain is looking it up in the
whole history (`find?_build`): collisions cost time, never answers.
-/

namespace Buckets

variable {E H : Type*} [DecidableEq H]

/-- Insert an entry at the head of its chain. -/
def put (hash : E → H) (t : H → List E) (e : E) : H → List E :=
  Function.update t (hash e) (e :: t (hash e))

/-- The table after a history of insertions. -/
def build (hash : E → H) (es : List E) : H → List E :=
  es.foldl (put hash) (fun _ => [])

/-- A chain holds the entries of its hash, newest first. -/
theorem build_apply (hash : E → H) (es : List E) (h : H) :
    build hash es h = (es.filter (fun e => hash e = h)).reverse := by
  suffices hgen : ∀ t : H → List E, es.foldl (put hash) t h =
      (es.filter (fun e => hash e = h)).reverse ++ t h by
    simpa [build] using hgen (fun _ => [])
  intro t
  induction es generalizing t with
  | nil => simp
  | cons e es ih =>
    rw [List.foldl_cons, ih]
    by_cases he : hash e = h
    · subst he
      simp [put]
    · simp [put, he, Function.update_of_ne (Ne.symm he)]

/-- A test that only entries of one hash can pass finds the same entry in that hash's
chain as in the whole history. -/
theorem find?_build (hash : E → H) (es : List E) (h : H) (test : E → Bool)
    (htest : ∀ e ∈ es, test e = true → hash e = h) :
    (build hash es h).find? test = es.reverse.find? test := by
  rw [build_apply, ← List.filter_reverse, List.find?_filter]
  refine List.find?_congr ?_
  intro e he
  have he' : e ∈ es := List.mem_reverse.1 he
  cases ht : test e with
  | false => simp
  | true => simp [htest e he' ht]

end Buckets
