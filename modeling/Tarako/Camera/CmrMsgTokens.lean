import Tarako.Camera.CmrMsg

/-!
# The semaphore and the counter of the message queue

The semaphore of `cmr_msg.c` is waited for before the mutex is taken and posted after it is
released, so while calls are under way it differs from `msg_number` by these calls. What
holds in every state is that each counted message has one token: in the semaphore, with the
post that is going to post it, or with the get or peak that has come for it.
-/

namespace Tarako

namespace CmrMsg

namespace System

variable {α : Type*} {count : ℕ}

/-- The step is not the return of `cmr_msg_peak` between lock and unlock. -/
def Unlocks (s : System α count) : Event α → Prop
  | .peakLock t => s.threads[t]? = some .peaking → s.cxt.msgRead ≠ s.cxt.msgWrite
  | _ => True

/-- The mutex is free, and each counted message has one token. -/
structure Counted (s : System α count) : Prop where
  unlocked : s.cxt.locked = false
  tokens : s.cxt.msgSem + s.threads.countP Thread.posts + s.threads.countP Thread.takes =
    s.cxt.msgNumber

theorem counted_start (hcount : 0 < count) (memory : Fin count → α) (n : ℕ) :
    (start hcount memory n).Counted where
  unlocked := rfl
  tokens := by simp [start, List.countP_replicate, Thread.posts, Thread.takes]

section Step

variable {s : System α count} {t : ℕ} {x : Thread α count}

/-- A thread goes from `x` to `y` and changes the semaphore and the counter accordingly. -/
theorem Counted.set (h : s.Counted) (hx : s.threads[t]? = some x) (y : Thread α count)
    {c : CmrMsgCxt α count} {accepted delivered : List α} {returns : List (Return α)}
    (hunlocked : c.locked = false)
    (htokens : c.msgSem + s.cxt.msgNumber + y.posts.toNat + y.takes.toNat =
      c.msgNumber + s.cxt.msgSem + x.posts.toNat + x.takes.toNat) :
    Counted ⟨c, s.threads.set t y, accepted, delivered, returns⟩ where
  unlocked := hunlocked
  tokens := by
    have hold := h.tokens
    have hposts := Tokens.countP_set_add Thread.posts hx y
    have htakes := Tokens.countP_set_add Thread.takes hx y
    change c.msgSem + (s.threads.set t y).countP Thread.posts +
      (s.threads.set t y).countP Thread.takes = c.msgNumber
    omega

theorem Counted.number_pos (h : s.Counted) (hx : s.threads[t]? = some x)
    (htakes : x.takes = true) : 0 < s.cxt.msgNumber := by
  have hpos := Tokens.countP_pos Thread.takes hx htakes
  have hold := h.tokens
  omega

theorem post_number {c d : CmrMsgCxt α count} {message : α} {oriNode : Fin count}
    (h : c.post message oriNode = some d) :
    d.msgNumber = c.msgNumber + 1 ∧ d.msgSem = c.msgSem ∧ d.locked = c.locked := by
  unfold CmrMsgCxt.post at h
  by_cases hfull : c.msgNumber ≥ count
  · rw [if_pos hfull] at h
    cases h
  · rw [if_neg hfull] at h
    obtain rfl := Option.some.inj h
    exact ⟨rfl, rfl, rfl⟩

theorem get_number {c : CmrMsgCxt α count} (h : 0 < c.msgNumber) :
    c.get.1.msgNumber = c.msgNumber - 1 ∧ c.get.1.msgSem = c.msgSem ∧
      c.get.1.locked = c.locked := by
  unfold CmrMsgCxt.get
  rw [if_neg (Nat.ne_of_gt h)]
  by_cases hread : c.msgRead ≠ c.msgWrite
  · rw [if_pos hread]
    exact ⟨rfl, rfl, rfl⟩
  · rw [if_neg hread]
    exact ⟨rfl, rfl, rfl⟩

theorem peak_number {c : CmrMsgCxt α count} (hread : c.msgRead ≠ c.msgWrite) :
    c.peak.1.msgNumber = c.msgNumber - 1 ∧ c.peak.1.msgSem = c.msgSem ∧
      c.peak.1.locked = c.locked := by
  rw [CmrMsgCxt.peak, if_pos hread]
  exact ⟨rfl, rfl, rfl⟩

theorem Counted.take (h : s.Counted) (hx : s.threads[t]? = some x) (htakes : x.takes = true)
    (hposts : x.posts = false) {c : CmrMsgCxt α count} {r : Return α}
    (hc : c.msgNumber = s.cxt.msgNumber - 1 ∧ c.msgSem = s.cxt.msgSem ∧
      c.locked = s.cxt.locked) : (s.finish t c r).Counted := by
  obtain ⟨hnumber, hsem, hlocked⟩ := hc
  have hpos := h.number_pos hx htakes
  refine h.set hx .idle (hlocked.trans h.unlocked) ?_
  rw [htakes, hposts, hnumber, hsem]
  simp only [Thread.posts, Thread.takes, Bool.toNat_true, Bool.toNat_false]
  omega

theorem Counted.step (h : s.Counted) (e : Event α) (hunlocks : s.Unlocks e) :
    (s.step e).Counted := by
  have hmoves := moves_step s e
  generalize s.step e = d at hmoves ⊢
  cases hmoves with
  | stay => exact h
  | begin message hx =>
      exact h.set hx _ h.unlocked (by simp [Thread.posts, Thread.takes, Nat.add_comm])
  | refuse hx hpost =>
      exact h.set hx _ h.unlocked (by simp [Thread.posts, Thread.takes, Nat.add_comm])
  | accept hx hpost =>
      obtain ⟨hnumber, hsem, hlocked⟩ := post_number hpost
      refine h.set hx _ (hlocked.trans h.unlocked) ?_
      rw [hnumber, hsem]
      simp only [Thread.posts, Thread.takes, Bool.toNat_true, Bool.toNat_false]
      omega
  | post hx =>
      refine h.set hx .idle h.unlocked ?_
      simp only [Thread.posts, Thread.takes, Bool.toNat_true, Bool.toNat_false]
      omega
  | wait hx hsem =>
      refine h.set hx _ h.unlocked ?_
      simp only [Thread.posts, Thread.takes, Bool.toNat_true, Bool.toNat_false]
      omega
  | get hx => exact h.take hx rfl rfl (get_number (h.number_pos hx rfl))
  | empty hx => exact h.set hx _ h.unlocked (by simp [Thread.posts, Thread.takes, Nat.add_comm])
  | acquire hx hsem =>
      refine h.set hx _ h.unlocked ?_
      simp only [Thread.posts, Thread.takes, Bool.toNat_true, Bool.toNat_false]
      omega
  | peak hx => exact h.take hx rfl rfl (peak_number (hunlocks hx))

end Step

/-- Whatever the interleaving, as long as `cmr_msg_peak` does not return between lock and
unlock: no thread keeps the mutex, and the semaphore is the counter but for the posts and
takes under way. -/
theorem sem_eq_number_of_unlocks (hcount : 0 < count) (memory : Fin count → α) (n : ℕ)
    {es fs : List (Event α)} (hfs : fs <+: es)
    (hes : Run.Meets step Unlocks (start hcount memory n) es) :
    let s := (start hcount memory n).run fs
    s.cxt.locked = false ∧
      s.cxt.msgSem + s.threads.countP Thread.posts + s.threads.countP Thread.takes =
        s.cxt.msgNumber ∧
      ((∀ x ∈ s.threads, x.posts = false ∧ x.takes = false) → s.cxt.msgSem = s.cxt.msgNumber) := by
  have h : ((start hcount memory n).run fs).Counted :=
    Run.invariant_prefix (fun _ e he hs => hs.step e he) hfs hes (counted_start hcount memory n)
  refine ⟨h.unlocked, h.tokens, fun hrest => ?_⟩
  have hposts : ((start hcount memory n).run fs).threads.countP Thread.posts = 0 :=
    List.countP_eq_zero.mpr fun x hx => by simp [(hrest x hx).1]
  have htakes : ((start hcount memory n).run fs).threads.countP Thread.takes = 0 :=
    List.countP_eq_zero.mpr fun x hx => by simp [(hrest x hx).2]
  have htokens := h.tokens
  omega

theorem sem_eq_number_post_peak :
    let s := (start (show 0 < 4 by omega) (fun _ => 0) 1).run
      [.postBegin 0 7, .postLock 0, .postSem 0, .peakTry 0, .peakLock 0]
    s.cxt.locked = false ∧ s.cxt.msgSem = s.cxt.msgNumber := by
  have hmeets : Run.Meets step Unlocks (start (show 0 < 4 by omega) (fun _ => 0) 1)
      [.postBegin 0 7, .postLock 0, .postSem 0, .peakTry 0, .peakLock 0] :=
    ⟨trivial, trivial, trivial, trivial, fun _ => by decide, trivial⟩
  obtain ⟨hlocked, -, hrest⟩ := sem_eq_number_of_unlocks (show 0 < 4 by omega) (fun _ => 0) 1
    (List.prefix_refl _) hmeets
  exact ⟨hlocked, hrest (by decide)⟩

/-- A post completes while another one has stored its message and is still to post the
semaphore. -/
theorem sem_behind_number :
    let s := (start (show 0 < 4 by omega) (fun _ => 0) 2).run
      [.postBegin 0 7, .postLock 0, .postBegin 1 8, .postLock 1]
    let s' := s.step (.postSem 1)
    s'.returns = s.returns ++ [.posted] ∧ s'.cxt.msgSem = 1 ∧ s'.cxt.msgNumber = 2 := by
  decide

end System

end CmrMsg

end Tarako
