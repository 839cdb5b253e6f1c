import PyCtp.SymbolFileRoundTrip

/-!
# How the loop of `subscribe` ends

Every round takes a line from the file, finds its end, or leaves a stream that has failed
short of it. In the last case the condition `!eof()` stays true and the loop goes on for
ever, so as many rounds as the file has characters decide what `subscribe` does.
-/
namespace PyCtp
open WhileLoops

namespace MdApi

theorem readSymbol_opened (s : Text) (names : List Text) :
    ∃ r, readSymbol ⟨.opened s, names⟩ = some r ∧
      r.symbolfile = ((IStream.opened s).getlineBuf '\n' bufferSize).1 :=
  ⟨_, by rw [readSymbol, if_neg (by simp [IStream.opened])], rfl⟩

theorem iter_or_diverges_opened (s : Text) (names : List Text) :
    (∃ r, iter readSymbol (s.length + 2) ⟨.opened s, names⟩ = some r) ∨
      Diverges readSymbol ⟨.opened s, names⟩ := by
  induction hn : s.length using Nat.strongRecOn generalizing s names with
  | ind n ih =>
    subst hn
    obtain ⟨r, hr, hstream⟩ := readSymbol_opened s names
    rcases IStream.getlineBuf_opened '\n' bufferSize s with ⟨rest, hlt, hg⟩ | he | ⟨he, hf⟩
    · obtain ⟨is, ms⟩ := r
      obtain rfl : is = .opened rest := hstream.trans hg
      rcases ih rest.length hlt rest ms rfl with ⟨q, hq⟩ | hd
      · left
        refine ⟨q, ?_⟩
        rw [iter_step hr]
        have hmono := iter_mono hq (s.length - rest.length - 1)
        rwa [show rest.length + 2 + (s.length - rest.length - 1) = s.length + 1 by omega] at hmono
      · exact .inr (hd.cons hr)
    · left
      refine ⟨r, ?_⟩
      rw [iter_step hr]
      exact iter_exit (by rw [readSymbol, hstream, if_pos he]) _
    · exact .inr ((readSymbol_diverges (hstream ▸ he) (hstream ▸ hf)).cons hr)

/-- What `subscribe` requests from a symbol file, or `none` where it stays in its loop. -/
def subscribeNames (symbolFile : Option Text) : Option (List Text) :=
  (iter readSymbol ((symbolFile.getD []).length + 2) (openSymbols symbolFile)).map
    (·.contractNameList)

theorem iter_or_diverges (symbolFile : Option Text) :
    (∃ r, iter readSymbol ((symbolFile.getD []).length + 2) (openSymbols symbolFile) = some r) ∨
      NeverSubscribes symbolFile := by
  cases symbolFile with
  | none => exact .inr neverSubscribes_none
  | some s => exact iter_or_diverges_opened s []

theorem subscribeNames_eq_some_iff {symbolFile : Option Text} {names : List Text} :
    subscribeNames symbolFile = some names ↔ Subscribes symbolFile names := by
  constructor
  · intro h
    obtain ⟨r, hr, hnames⟩ := Option.map_eq_some_iff.mp h
    exact ⟨r, ⟨_, hr⟩, hnames⟩
  · rintro ⟨r, hr, rfl⟩
    rcases iter_or_diverges symbolFile with ⟨q, hq⟩ | hd
    · rw [subscribeNames, hq, hr.unique ⟨_, hq⟩, Option.map_some]
    · exact absurd hr (hd.not_ends r)

theorem subscribeNames_eq_none_iff {symbolFile : Option Text} :
    subscribeNames symbolFile = none ↔ NeverSubscribes symbolFile := by
  constructor
  · intro h
    rcases iter_or_diverges symbolFile with ⟨q, hq⟩ | hd
    · simp [subscribeNames, hq] at h
    · exact hd
  · intro h
    rw [subscribeNames, h, Option.map_none]

theorem not_ends_of_long {l : Text} (hl : '\n' ∉ l) (hlen : bufferSize ≤ l.length) (rest : Text)
    (names : List Text) : ¬∃ t, Ends readSymbol ⟨.opened (l ++ rest), names⟩ t := by
  rintro ⟨t, ht⟩
  obtain ⟨q, hq, hstream⟩ := readSymbol_opened (l ++ rest) names
  obtain ⟨he, hf⟩ := IStream.getlineBuf_long hl (by decide) hlen rest
  exact (readSymbol_diverges (hstream ▸ he) (hstream ▸ hf)).not_ends t (ht.of_step hq)

/-- From a good stream the loop ends if and only if every line left fits the buffer. -/
theorem ends_opened_iff {ls : List Text} (hls : ∀ l ∈ ls, '\n' ∉ l) {r : Text} (hr : '\n' ∉ r)
    (names : List Text) :
    (∃ t, Ends readSymbol ⟨.opened (terminated '\n' ls ++ r), names⟩ t) ↔
      ∀ l ∈ ls ++ [r], l.length < bufferSize := by
  induction ls generalizing names with
  | nil =>
    rw [List.nil_append, List.forall_mem_singleton]
    constructor
    · intro hends
      by_contra hlen
      rw [← List.append_nil r] at hends
      exact not_ends_of_long hr (not_lt.mp hlen) [] names hends
    · intro hlen
      obtain ⟨q, hq, hstream⟩ := readSymbol_opened r names
      refine ⟨q, .step hq (.exit ?_)⟩
      rw [readSymbol, hstream, if_pos (IStream.getlineBuf_unterminated hr hlen)]
  | cons l ls ih =>
    obtain ⟨hl, hls⟩ := List.forall_mem_cons.mp hls
    rw [List.cons_append, List.forall_mem_cons, terminated_cons, List.append_assoc,
      List.cons_append]
    by_cases hlen : l.length < bufferSize
    · obtain ⟨q, hq, hstream⟩ := readSymbol_opened (l ++ '\n' :: (terminated '\n' ls ++ r)) names
      rw [IStream.getlineBuf_line hl hlen] at hstream
      obtain ⟨is, ms⟩ := q
      obtain rfl : is = .opened (terminated '\n' ls ++ r) := hstream
      refine Iff.trans ⟨?_, ?_⟩ ((ih hls ms).trans (by simp [hlen]))
      · rintro ⟨t, ht⟩
        exact ⟨t, ht.of_step hq⟩
      · rintro ⟨t, ht⟩
        exact ⟨t, ht.step hq⟩
    · exact iff_of_false (not_ends_of_long hl (not_lt.mp hlen) _ names) fun h => hlen h.1

theorem subscribes_iff (symbolFile : Option Text) :
    (∃ names, Subscribes symbolFile names) ↔
      ∃ s, symbolFile = some s ∧ ∀ l ∈ s.splitOn '\n', l.length < bufferSize := by
  have hends : (∃ names, Subscribes symbolFile names) ↔
      ∃ r, Ends readSymbol (openSymbols symbolFile) r :=
    ⟨fun ⟨_, r, hr, _⟩ => ⟨r, hr⟩, fun ⟨r, hr⟩ => ⟨_, r, hr, rfl⟩⟩
  rw [hends]
  cases symbolFile with
  | none =>
    constructor
    · rintro ⟨r, hr⟩
      exact absurd hr (neverSubscribes_none.not_ends r)
    · rintro ⟨s, hs, -⟩
      cases hs
  | some s =>
    obtain ⟨ls, r, rfl, hls, hr⟩ := exists_terminated_append '\n' s
    have hfits := ends_opened_iff hls hr []
    rw [← splitOn_terminated_append hls hr] at hfits
    exact hfits.trans ⟨fun h => ⟨_, rfl, h⟩, fun ⟨t, ht, h⟩ => Option.some.inj ht ▸ h⟩

/-- The loop of `subscribe` ends if and only if the file opens and all its lines fit the
buffer. -/
theorem subscribe_ends_iff (symbolFile : Option Text) :
    (∃ r, Ends readSymbol (openSymbols symbolFile) r) ↔
      ∃ s, symbolFile = some s ∧ ∀ l ∈ s.splitOn '\n', l.length < bufferSize := by
  rw [← subscribes_iff]
  constructor
  · rintro ⟨r, hr⟩
    exact ⟨_, r, hr, rfl⟩
  · rintro ⟨_, r, hr, -⟩
    exact ⟨r, hr⟩

/-- After `tdapi` has removed the file, nothing ends the loop. -/
theorem subscribe_removed_not_ends :
    ¬∃ r, Ends readSymbol (openSymbols (Tdapi.queryAllContract (some []))) r := by
  rintro ⟨r, hr⟩
  exact neverSubscribes_none.not_ends r hr

end MdApi
end PyCtp
