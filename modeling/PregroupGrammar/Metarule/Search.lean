/-!
# Searches that are content with a few finds

A search that is told how many finds are wanted gives the first finds, up to that number, and leaves
the rest of its ground alone. A search over one ground and then over another is again such a search
(`andThen_take`), and so is one that tries in turn every place where a run may end.
-/

namespace PregroupGrammar.Search

variable {α β : Type}

/-- The finds of a search, and then those of a further search, which is asked only for what is still
wanting. -/
@[inline]
def andThen (wanted : Nat) (found : List β) (further : Nat → List β) : List β :=
  match found with
  | [] => further wanted
  | b :: bs =>
    if bs.length + 1 < wanted then b :: bs ++ further (wanted - (bs.length + 1)) else b :: bs

/-- The first finds in one list and then another are the first finds in the two together. -/
theorem andThen_take (wanted : Nat) (front back : List β) :
    andThen wanted (front.take wanted) (fun n => back.take n) = (front ++ back).take wanted := by
  rcases h : front.take wanted with _ | ⟨b, bs⟩
  · rcases List.take_eq_nil_iff.1 h with rfl | rfl <;> simp [andThen]
  · have hlen : bs.length + 1 = min wanted front.length := by
      rw [← List.length_take, h, List.length_cons]
    rw [List.take_append, h, andThen]
    split
    · rw [show bs.length + 1 = front.length by omega]
    · rw [show wanted - front.length = 0 by omega, List.take_zero, List.append_nil]

/-- The first finds of a search that is started wherever a run that begins at the front of a list
may end, the shortest run first. The search is given the run, last item first, and what follows it;
`passed` is the run so far. -/
def sweep (search : Nat → List α → List α → List β) (wanted : Nat) (passed : List α) :
    List α → List β
  | [] => search wanted passed []
  | a :: rest =>
    andThen wanted (search wanted passed (a :: rest)) fun n => sweep search n (a :: passed) rest

end PregroupGrammar.Search
