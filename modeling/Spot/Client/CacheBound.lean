import Spot.Client.Cache

/-!
# The size of the card cache

`set_idcard_cache` empties the cache before it exceeds 1025 entries; `get_idcard` puts cards there
without that protection.  `cache_bounded_iff`: along every run the bound holds, if and only if
`get_idcard` never adds an entry to a full cache.  Nothing keeps it from doing so:
`cache_unbounded` gives runs to caches of every size.
-/

namespace Spot

variable {B : Bottlers} {t : Platform} {acct : Account B}

/-- The most entries that `set_idcard_cache` leaves. -/
def cacheLimit : ℕ := 1025

/-- The cache is within the limit. -/
def CacheBounded (s : ClientState B) : Prop := s.shared.cache.entries.length ≤ cacheLimit

instance : DecidablePred (CacheBounded (B := B)) := fun s =>
  inferInstanceAs (Decidable (s.shared.cache.entries.length ≤ cacheLimit))

/-- There is an entry to be replaced, or room for another one. -/
def Room (s : Shared B) (h : Bytes) : Prop := h ∈ s.cache ∨ s.cache.entries.length < cacheLimit

/-- If the step is that of `get_idcard` putting a card into the cache, there is room for it. -/
def InsertsWithRoom (s : ClientState B) : ClientEvent B → Prop
  | .act _ => True
  | .answer i _ => ∀ task h card k, s.tasks[i]? = some task → task.prog = .ask (.insert h card) k →
    Room s.shared h

theorem length_insert {α : Type*} {β : α → Type*} [DecidableEq α] (c : AList β) (a : α) (b : β a) :
    (c.insert a b).entries.length =
      if a ∈ c then c.entries.length else c.entries.length + 1 := by
  have hkeys : ∀ c : AList β, c.entries.length = c.keys.length :=
    fun c => (List.length_map ..).symm
  rw [hkeys, hkeys, AList.keys_insert, List.length_cons]
  split_ifs with hmem
  · have hpos := List.length_pos_of_mem (AList.mem_keys.1 hmem)
    rw [List.length_erase_of_mem (AList.mem_keys.1 hmem)]
    omega
  · rw [List.erase_of_not_mem fun hm => hmem (AList.mem_keys.2 hm)]

/-- A card put into a cache within the limit leaves it within the limit if there is room. -/
theorem length_insert_le_iff {s : Shared B} (hs : s.cache.entries.length ≤ cacheLimit) {h : Bytes}
    {card : B.Card} : (s.cache.insert h card).entries.length ≤ cacheLimit ↔ Room s h := by
  rw [length_insert, Room]
  split_ifs with hmem
  · exact iff_of_true hs (.inl hmem)
  · rw [or_iff_right hmem]
    omega

/-- `set_idcard_cache` keeps every cache within the limit. -/
theorem length_setCache (s : Shared B) (h : Bytes) (card : B.Card) :
    (s.setCache h card).cache.entries.length ≤ cacheLimit := by
  show ((if s.cache.entries.length > 1024 then ∅ else s.cache).insert h card).entries.length ≤ 1025
  rw [length_insert]
  have hempty : (∅ : AList fun _ : Bytes => B.Card).entries.length = 0 := rfl
  split_ifs <;> omega

/-- The only question that can take the cache beyond the limit is the one of `get_idcard`. -/
theorem length_effect {s : Shared B} (hs : s.cache.entries.length ≤ cacheLimit) {q : Ask B}
    (hroom : ∀ h card, q = .insert h card → Room s h) :
    (s.effect q).cache.entries.length ≤ cacheLimit := by
  cases q with
  | insert h card => exact (length_insert_le_iff hs).2 (hroom h card rfl)
  | setCache h card => exact length_setCache s h card
  | refresh => exact Nat.zero_le _
  | _ => exact hs

/-- A step that has room keeps the cache within the limit. -/
theorem bounded_step {s s' : ClientState B} {e : ClientEvent B} (hs : CacheBounded s)
    (hroom : InsertsWithRoom s e) (h : Pool.step (clientSystem t acct) s e = some s') :
    CacheBounded s' := by
  cases e with
  | act c =>
    obtain ⟨⟨shared, ps⟩, hact, rfl⟩ := Option.map_eq_some_iff.1 h
    obtain ⟨hafter, -⟩ := clientSystem_act_eq_some hact
    unfold CacheBounded
    rw [cache_after hafter]
    exact hs
  | answer i o =>
    obtain ⟨task, q, k, hi, hq, rfl⟩ := Pool.step_answer_eq_some.1 h
    refine length_effect hs fun hash card e => ?_
    subst e
    exact hroom task hash card k hi hq

/-- A step that keeps it there had room. -/
theorem room_of_bounded {s s' : ClientState B} {e : ClientEvent B} (hs : CacheBounded s)
    (h : Pool.step (clientSystem t acct) s e = some s') (hs' : CacheBounded s') :
    InsertsWithRoom s e := by
  cases e with
  | act c => trivial
  | answer i o =>
    intro task hash card k hi hq
    obtain ⟨task', q', k', hi', hq', rfl⟩ := Pool.step_answer_eq_some.1 h
    obtain rfl := Option.some.inj (hi.symm.trans hi')
    obtain ⟨rfl, -⟩ := Prog.ask.inj (hq.symm.trans hq')
    exact (length_insert_le_iff hs).1 hs'

/-- Along every run from an empty cache the cache stays within the limit if and only if
`get_idcard` never adds an entry to a full one. -/
theorem cache_bounded_iff (t : Platform) (acct : Account B) {shared : Shared B}
    (hs : shared.cache = ∅) {es : List (ClientEvent B)} {s : ClientState B}
    (hr : run (Pool.step (clientSystem t acct)) { shared } es = some s) :
    Throughout (Pool.step (clientSystem t acct)) CacheBounded { shared } es ↔
      Guarded (Pool.step (clientSystem t acct)) InsertsWithRoom { shared } es := by
  have hstart : CacheBounded ({ shared } : ClientState B) := by
    unfold CacheBounded
    rw [hs]
    exact Nat.zero_le _
  exact throughout_iff_guarded (fun _ _ _ hs hroom h => bounded_step hs hroom h)
    (fun _ _ _ hs h hs' => room_of_bounded hs h hs') hstart hr

/-! ### A server that has a card for every hash -/

open Account

theorem cache_bounded_iff_lookupRun :
    Guarded (Pool.step (clientSystem .native plainAccount)) InsertsWithRoom { shared := {} }
      (lookupRun hash9 honestServer) := by
  have hr : run (Pool.step (clientSystem .native plainAccount)) { shared := {} }
      (lookupRun hash9 honestServer) = some _ := rfl
  exact (cache_bounded_iff .native plainAccount rfl hr).1 (by decide)

/-- The card in that reply. -/
def fetchedCard : plain.Card := Plain.cardOf [0, 9] 0

/-- A card is looked up and put into the cache. -/
def fetchTrace (h : Bytes) : Trace plain :=
  ⟨.cached h, none⟩ ::
    (sentTrace 0 ⟨(), ()⟩ (request zeroId idcardFind (Plain.write ⟨none, [(0, 5)], h⟩)) (some h)
      (.message cardReply) ++ [⟨.now, 0⟩, ⟨.insert h fetchedCard, ()⟩])

theorem run_fetchTrace (h : Bytes) : (Done.card h <$> (getIdcard .native plainAccount h).run).Run
    (fetchTrace h) (.card h (.ok fetchedCard)) :=
  ⟨_, _, rfl, _, _, rfl, _, _, rfl, _, _, rfl, _, _, rfl, _, _, rfl, _, _, rfl, _, _, rfl, rfl, rfl⟩

theorem answers_fetchTrace {s : Shared plain} {h : Bytes} (hnone : h ∉ s.cache) :
    (clientSystem .native plainAccount).Answers s (fetchTrace h) := by
  have hlookup : s.cache.lookup h = none := AList.lookup_eq_none.2 hnone
  exact ⟨⟨none, hlookup⟩, ⟨_, rfl⟩, ⟨_, rfl⟩, ⟨_, rfl⟩, ⟨(), rfl⟩, ⟨_, rfl⟩, ⟨_, rfl⟩, ⟨(), rfl⟩,
    trivial⟩

/-- Caches of every size are reached: one more hash can always be looked up. -/
theorem cache_unbounded (n : ℕ) :
    ∃ s, Reachable (Pool.step (clientSystem .native plainAccount)) { shared := {} } s ∧
      s.shared.cache.entries.length = n ∧ ∀ h ∈ s.shared.cache, h.length < n := by
  induction n with
  | zero => exact ⟨_, .refl, rfl, fun h hm => absurd hm (AList.notMem_empty h)⟩
  | succ n ih =>
    obtain ⟨s, hreach, hlen, hshort⟩ := ih
    have hnew : List.replicate n 0 ∉ s.shared.cache := fun hm => by
      have hlt := hshort _ hm
      rw [List.length_replicate] at hlt
      exact lt_irrefl n hlt
    obtain ⟨s', hreach', hshared⟩ := Pool.reachable_of_act
      (S := clientSystem .native plainAccount) (c := .getIdcard (List.replicate n 0))
      (outsideAnswers default fun _ => .elapsed true false) rfl
      (run_fetchTrace _) (answers_fetchTrace hnew)
    have hcache : s'.shared.cache = s.shared.cache.insert (List.replicate n 0) fetchedCard := by
      rw [hshared]
      rfl
    refine ⟨s', hreach.trans hreach', ?_, fun h hm => ?_⟩
    · rw [hcache, length_insert, if_neg hnew, hlen]
    · rw [hcache, AList.mem_insert] at hm
      rcases hm with rfl | hm
      · rw [List.length_replicate]
        exact Nat.lt_succ_self n
      · exact Nat.lt_succ_of_lt (hshort h hm)

/-- A run that looks up more cards than the limit. -/
theorem not_cache_bounded :
    ¬ ∀ s, Reachable (Pool.step (clientSystem .native plainAccount)) { shared := {} } s →
      CacheBounded s := by
  intro hall
  obtain ⟨s, hreach, hlen, -⟩ := cache_unbounded (cacheLimit + 1)
  have hle := hall s hreach
  rw [CacheBounded, hlen] at hle
  exact Nat.not_succ_le_self _ hle

end Spot
