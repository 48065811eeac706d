import DataProxy.Shared

/-!
# Creation and destruction of awaits

What a creation or destruction does to the registries: one entry comes or goes, that of the await
itself, and the queue of a name stays what it is as long as some `SharedMessageAwait` of the name is
alive.  A clone takes the queue of the await it is made from, whichever that is; that all awaits of a
name agree on it is part of `Wf`.
-/

namespace DataProxy

open Function (update)

variable {w w' : World} {act : Action} {a b : Addr} {A B : Await} {n : String}

/-- A call of one of the `create_*_await` functions, or a destructor. -/
def Action.lifecycle : Action → Bool
  | .body _ (.createShared _ _ _ _ _) | .body _ (.createMessage _ _ _ _ _)
  | .body _ (.createTemp _ _ _ _ _ _) | .body _ (.destroy _) | .registerTime _ _ _ => true
  | _ => false

/-- The three multimaps hold one entry for each live await of their kind, under its name, and
nothing else; two `SharedMessageAwait`s have the same queue if and only if they have the same
name. -/
structure RegistriesExact (w : World) : Prop where
  entry : ∀ a A, w.awaits a = some A → ∀ k n,
    (w.registry k).count (n, a) = if k = A.type ∧ n = A.waitMessageName then 1 else 0
  live : ∀ k n a, (n, a) ∈ w.registry k → ∃ A, w.awaits a = some A
  queue : ∀ a b A B, w.awaits a = some A → w.awaits b = some B → A.type = .shared →
    B.type = .shared → (A.sharedQueue = B.sharedQueue ↔ A.waitMessageName = B.waitMessageName)

/-- What a creation or destruction leaves alone. -/
structure LifecycleKeeps (w w' : World) (act : Action) : Prop where
  /-- A destructor removes its own entry and no other. -/
  entries : ∀ c a A, act = .body c (.destroy a) → w.awaits a = some A → ∀ k e,
    (w'.registry k).count e =
      if k = A.type ∧ e = (A.waitMessageName, a) then 0 else (w.registry k).count e
  /-- The queue of a name keeps its contents while an await of the name is alive. -/
  contents : ∀ n, (∃ b, w.Live .shared n b) → (∃ b, w'.Live .shared n b) →
    w'.sharedContents n = w.sharedContents n

theorem Wf.registriesExact (hw : Wf w) : RegistriesExact w where
  entry a A ha k n := by
    split
    · rename_i h
      obtain ⟨rfl, rfl⟩ := h
      exact List.count_eq_one_of_mem (hw.nodup _) ((hw.registered _ _ _).2 ⟨A, ha, rfl, rfl⟩)
    · rename_i h
      refine List.count_eq_zero.2 fun hm => h ?_
      obtain ⟨A', ha', hty, hn⟩ := (hw.registered _ _ _).1 hm
      obtain rfl := Option.some.inj (ha.symm.trans ha')
      exact ⟨hty.symm, hn.symm⟩
  live k n a hm := by
    obtain ⟨A, ha, -⟩ := (hw.registered _ _ _).1 hm
    exact ⟨A, ha⟩
  queue := hw.queue_iff

/-- A creation or destruction touches no queue that is in use. -/
theorem Trans.lifecycle_queues (ht : Trans w act w') (hl : act.lifecycle = true) {q : QueueId}
    (hq : q < w.nextQueue) : w'.sharedQueues q = w.sharedQueues q := by
  cases ht with
  | createQueue => exact Function.update_of_ne (Nat.ne_of_lt hq) ..
  | createClone | createMessage | createTemp | registerTime | destroy => rfl
  | _ => cases hl

/-- An await of the name that is alive before and after the step, if there is one on each side. -/
theorem AwaitStep.live_both (h : AwaitStep w w') (hb : ∃ b, w.Live .shared n b)
    (hb' : ∃ b, w'.Live .shared n b) : ∃ b, w.Live .shared n b ∧ w'.Live .shared n b := by
  obtain ⟨b, hb⟩ := hb
  obtain ⟨b', hb'⟩ := hb'
  by_cases hlive : w'.Live .shared n b
  · exact ⟨b, hb, hlive⟩
  · -- it is the one destroyed, so that the other was there before
    refine ⟨b', ?_, hb'⟩
    obtain ⟨B, hB, hty, hn⟩ := hb
    obtain ⟨B', hB', hty', hn'⟩ := hb'
    have gone : ∀ {C}, w'.awaits b = some C → ¬B.Keeps C := by
      intro C hC hk
      exact hlive ⟨C, hC, hk.type.trans hty, hk.name.trans hn⟩
    cases h with
    | keep h => exact absurd (.refl B) (gone (h ▸ hB))
    | @edit a A A' ha h hk =>
      by_cases hba : b = a
      · subst hba
        obtain rfl := Option.some.inj (hB.symm.trans ha)
        exact absurd hk (gone (by rw [h, Function.update_self]))
      · exact absurd (.refl B) (gone (by rw [h, Function.update_of_ne hba, hB]))
    | @create a A pos ha h =>
      have hba : b ≠ a := by rintro rfl; rw [hB] at ha; cases ha
      exact absurd (.refl B) (gone (by rw [h, Function.update_of_ne hba, hB]))
    | @destroy a A ha h =>
      have hba : b' ≠ a := by
        rintro rfl
        rw [h, Function.update_self] at hB'
        cases hB'
      exact ⟨B', by rw [← hB', h, Function.update_of_ne hba], hty', hn'⟩

theorem Wf.lifecycleKeeps (hw : Wf w) (ht : Trans w act w') (hl : act.lifecycle = true) :
    LifecycleKeeps w w' act where
  entries c a A hact ha k e := by
    subst hact
    cases ht with
    | destroy _ _ hb =>
      obtain rfl := Option.some.inj (ha.symm.trans hb)
      by_cases hk : k = A.type
      · subst hk
        simp only [Function.update_self, true_and]
        split
        · rename_i he
          rw [he, List.count_erase_self, List.count_eq_one_of_mem (hw.nodup _)
            ((hw.registered _ _ _).2 ⟨A, ha, rfl, rfl⟩)]
        · rename_i he
          exact List.count_erase_of_ne he
      · simp [hk]
  contents n hb hb' := by
    obtain ⟨b, ⟨B, hB, hty, hn⟩, B', hB', hty', hn'⟩ := (hw.awaitStep ht).live_both hb hb'
    have hq := (hw.keeps ht hB hB').sharedQueue
    rw [hw.sharedContents_eq hB (by simp [Await.isShared, hty, hn]),
      (hw.step ht).sharedContents_eq hB' (by simp [Await.isShared, hty', hn']), hq]
    exact ht.lifecycle_queues hl (hw.queue_lt b B hB hty)

/-- **The await registries stay exact**, in every run and through every creation and destruction. -/
theorem registriesExact_of_reachable {ok : World → Action → Prop} (h : Reachable ok w) :
    RegistriesExact w ∧ ∀ act w', act.lifecycle = true → step w act = some w' →
      LifecycleKeeps w w' act :=
  have hw := wf_of_reachable h
  ⟨hw.registriesExact, fun _ _ hl hs => hw.lifecycleKeeps (trans_of_step hs) hl⟩

/-- A `SharedMessageAwait` with a message waiting is cloned and destroyed. -/
def ownerDies : List Action :=
  [Action.start 1, .body 1 (.createShared 5 0 "n" 0 0), .push { name := "n" }] ++
  List.replicate 6 (Action.dispatch .normal 0) ++
  [Action.start 2, .body 2 (.createShared 6 0 "n" 0 0), .body 1 (.destroy 5)]

theorem registriesExact_ownerDies :
    ∃ w, Reachable Run.Any w ∧ w.registry .shared = [("n", 6)] ∧
      w.sharedContents "n" = [{ name := "n" }] ∧ RegistriesExact w := by
  have hrun : (Run.exec step World.init ownerDies).any (fun w => decide
      (w.registry .shared = [("n", 6)] ∧ w.sharedContents "n" = [{ name := "n" }])) = true := by
    decide +kernel
  obtain ⟨w, hw, hr, hs⟩ := Run.exists_reach_of_exec hrun
  exact ⟨w, hw, hr, hs, (registriesExact_of_reachable hw).1⟩

end DataProxy
