/-
One remote at a time, whatever fails.

The remotes of a connection are numbered as they are asked for, so what has
been asked of them can be read off the calls there have been. The invariant
(`Disciplined`) is that the remote in use and the source of traversals go
together, that every remote made is closed or in use, and that nothing is asked
of a remote after its close. Every call keeps it, since it changes a connection
in one of four ways: a remote is asked for, taken into use, given up, or sent a
traversal.

# What is counted

No table of remotes is kept. That a remote is open is told from the calls: it
has been asked for and not been closed (`closings`). Failures come from an
`Outlook`, which says for each call whether what it asks of the outside fails,
and the statements hold for each of them; so a close that fails counts as a
close, as it does in the code, and an opening that fails makes no remote.

Main statement: `holds_one_remote`.

Chain: `Failure.Checked`; nothing else of the project is needed.
-/
import GraphMapper.Proofs.Failure.Checked
import GraphMapper.Remote.Connection

namespace GraphMapper

-- ======================================================= what calls are about

namespace RemoteCall

/-- The remote that a call is about. -/
def remote : RemoteCall → Nat
  | .open n _ _ _ => n
  | .submit n _ => n
  | .close n => n

/-- The remote that a call closes. -/
def closed? : RemoteCall → Option Nat
  | .close n => some n
  | _ => none

/-- The remotes that are closed, as often as they are. -/
def closings (calls : List RemoteCall) : List Nat := calls.filterMap closed?

/-- The call asks for a new remote. -/
def opens : RemoteCall → Bool
  | .open _ _ _ _ => true
  | _ => false

/-- A close is the last of the closes. -/
@[simp] theorem closings_append_close (calls : List RemoteCall) (n : Nat) :
    closings (calls ++ [.close n]) = closings calls ++ [n] := by
  simp [closings, closed?]

/-- A traversal that is sent closes nothing. -/
@[simp] theorem closings_append_submit (calls : List RemoteCall) (n : Nat)
    (steps : List Step) :
    closings (calls ++ [.submit n steps]) = closings calls := by
  simp [closings, closed?]

/-- Neither does a remote that is asked for. -/
@[simp] theorem closings_append_open (calls : List RemoteCall) (n : Nat)
    (url source : Value) (arguments : Entries) :
    closings (calls ++ [.open n url source arguments]) = closings calls := by
  simp [closings, closed?]

/-- No call is about a remote that an earlier one has closed. -/
def Final (calls : List RemoteCall) : Prop :=
  calls.Pairwise fun earlier later => earlier.closed? ≠ some later.remote

/-- One more call that is made to a remote not closed so far. -/
theorem Final.append {calls : List RemoteCall} {call : RemoteCall}
    (h : Final calls) (hopen : call.remote ∉ closings calls) :
    Final (calls ++ [call]) := by
  refine List.pairwise_append.mpr ⟨h, List.pairwise_singleton _ _, ?_⟩
  intro earlier hearlier later hlater hclosed
  rw [List.mem_singleton] at hlater
  subst hlater
  exact hopen (List.mem_filterMap.mpr ⟨earlier, hearlier, hclosed⟩)

/-- Nothing is closed twice. -/
private theorem Final.nodup {calls : List RemoteCall} (h : Final calls) :
    (closings calls).Nodup := by
  refine List.Pairwise.filterMap closed? (fun earlier later hne => ?_) h
  intro n hearlier m hlater hnm
  have hm : later.remote = m := by
    cases later <;> simp_all [closed?, remote]
  exact hne (by rw [Option.mem_def.mp hearlier, hm, hnm])

/-- What is closed has been asked for, as all that calls are about. -/
private theorem le_of_mem_closings {calls : List RemoteCall} {n bound : Nat}
    (h : n ∈ closings calls) (hbound : ∀ call ∈ calls, call.remote ≤ bound) :
    n ≤ bound := by
  obtain ⟨call, hcall, hclosed⟩ := List.mem_filterMap.mp h
  have hn : call.remote = n := by
    cases call <;> simp_all [closed?, remote]
  exact hn ▸ hbound call hcall

end RemoteCall

open RemoteCall (closings Final)

namespace Connection

-- ============================================================== the invariant

/-- The remote in use and the source go together, remotes that have been made
are closed or in use, and each that is closed is closed for good. -/
structure Disciplined (c : Connection) : Prop where
  together : c.bound = c.remote
  balanced : c.made = (closings c.calls).length + c.isOpen.toNat
  final : Final c.calls
  /-- All that is asked is asked of remotes that have been asked for. -/
  numbered : ∀ call ∈ c.calls, call.remote ≤ c.asked
  /-- The remote in use has been asked for and is not closed. -/
  usable : ∀ n, c.remote = some n → n ≤ c.asked ∧ n ∉ closings c.calls

/-- At the start nothing has been asked for. -/
private theorem disciplined_ofSettings (settings : Settings) :
    Disciplined (ofSettings settings) where
  together := rfl
  balanced := rfl
  final := List.Pairwise.nil
  numbered := by simp [ofSettings]
  usable := by simp [ofSettings]

/-- The connection when a remote has been asked for. -/
def asking (url : Value) (c : Connection) : Connection :=
  { c with asked := c.asked + 1 }.note
    (.open (c.asked + 1) url c.settings.source (arguments c.settings))

/-- The connection when a remote has been made and taken into use. -/
def taking (n : Nat) (c : Connection) : Connection :=
  { c with remote := some n, bound := some n, made := c.made + 1 }

/-- The connection when a remote has been given up and is closed. -/
def givingUp (n : Nat) (c : Connection) : Connection :=
  { c with remote := none, bound := none }.note (.close n)

/-- The number of the next remote is one that nothing has been asked of. -/
private theorem Disciplined.fresh {c : Connection} (h : c.Disciplined) :
    c.asked + 1 ∉ closings c.calls := by
  intro hmem
  have := RemoteCall.le_of_mem_closings hmem h.numbered
  omega

/-- A new remote has a number that nobody has used. -/
theorem Disciplined.asking {c : Connection} (h : c.Disciplined) (url : Value) :
    (c.asking url).Disciplined where
  together := h.together
  balanced := by simpa [Connection.asking, note, isOpen] using h.balanced
  final := h.final.append h.fresh
  numbered := by
    intro call hcall
    simp only [Connection.asking, note, List.mem_append,
      List.mem_singleton] at hcall ⊢
    rcases hcall with hcall | rfl
    · have := h.numbered call hcall
      omega
    · exact Nat.le_refl _
  usable := by
    intro n hn
    obtain ⟨hle, hopen⟩ := h.usable n hn
    exact ⟨Nat.le_succ_of_le hle, by
      simpa [Connection.asking, note] using hopen⟩

/-- A remote that is not closed may be taken into use if there is none. -/
private theorem Disciplined.taking {c : Connection} {n : Nat}
    (h : c.Disciplined) (hnone : c.remote = none) (hasked : n ≤ c.asked)
    (hopen : n ∉ closings c.calls) : (c.taking n).Disciplined where
  together := rfl
  balanced := by
    have := h.balanced
    simp only [isOpen, hnone] at this
    simp [Connection.taking, isOpen, this]
  final := h.final
  numbered := h.numbered
  usable := by
    rintro _ ⟨⟩
    exact ⟨hasked, hopen⟩

/-- The remote in use is closed, and then it is in use no more. -/
private theorem Disciplined.givingUp {c : Connection} {n : Nat}
    (h : c.Disciplined)
    (hn : c.remote = some n) : (c.givingUp n).Disciplined where
  together := rfl
  balanced := by
    have := h.balanced
    simp only [isOpen, hn] at this
    simpa [Connection.givingUp, note, isOpen] using this
  final := h.final.append (h.usable n hn).2
  numbered := by
    intro call hcall
    simp only [Connection.givingUp, note, List.mem_append,
      List.mem_singleton] at hcall
    rcases hcall with hcall | rfl
    · exact h.numbered call hcall
    · exact (h.usable n hn).1
  usable := by simp [Connection.givingUp, note]

/-- The remote in use is not closed, so a traversal may be sent to it. -/
theorem Disciplined.submitting {c : Connection} {n : Nat} (h : c.Disciplined)
    (hn : c.remote = some n) (steps : List Step) :
    (c.note (.submit n steps)).Disciplined where
  together := h.together
  balanced := by simpa [note, isOpen] using h.balanced
  final := h.final.append (h.usable n hn).2
  numbered := by
    intro call hcall
    simp only [note, List.mem_append, List.mem_singleton] at hcall
    rcases hcall with hcall | rfl
    · exact h.numbered call hcall
    · exact (h.usable n hn).1
  usable := by
    intro k hk
    obtain ⟨hle, hopen⟩ := h.usable k hk
    exact ⟨hle, by simpa [note] using hopen⟩

-- ========================================================= what calls come to

variable {c : Connection}

/-- An open connection is left as it is. -/
private theorem openUp_open (o : Outlook) {n : Nat} (h : c.remote = some n) :
    c.openUp o = (.ok (), c) := by
  simp [openUp, h]

/-- A closed connection comes to a new remote, or it fails and has none. -/
private theorem openUp_closed (o : Outlook) (h : c.remote = none) :
    (∃ e, c.settings.resolveUrl = .error e ∧ c.openUp o = (.error e, c)) ∨
    (∃ url e, o.openFailure = some e ∧ c.openUp o = (.error e, c.asking url)) ∨
    (∃ url, o.openFailure = none ∧
      c.openUp o = (.ok (), (c.asking url).taking (c.asked + 1))) := by
  unfold openUp
  split
  next n hn => simp [h] at hn
  next =>
    split
    next e hurl => exact .inl ⟨e, hurl, rfl⟩
    next url hurl =>
      cases ho : o.openFailure with
      | some e => exact .inr (.inl ⟨url, e, rfl, rfl⟩)
      | none => exact .inr (.inr ⟨url, rfl, rfl⟩)

/-- A closed connection has no source either, so that there is nothing to give
up. -/
private theorem close_closed (o : Outlook) (hc : c.Disciplined)
    (h : c.remote = none) : c.close o = (.ok (), c) := by
  have hbound : c.bound = none := hc.together.trans h
  obtain ⟨settings, remote, bound, asked, made, calls⟩ := c
  subst h hbound
  rfl

/-- The remote in use is given up, whatever comes of its close. -/
private theorem close_open (o : Outlook) {n : Nat} (h : c.remote = some n) :
    (c.close o).2 = c.givingUp n := by
  unfold close
  rw [h]
  cases o.closeFailure <;> rfl

/-- After a close there is no remote, whatever became of closing it. -/
@[simp] theorem close_remote (o : Outlook) : (c.close o).2.remote = none := by
  unfold close
  cases c.remote with
  | none => rfl
  | some n => cases o.closeFailure <;> rfl

/-- The one in use is closed, if there is one, and nothing else is called. -/
private theorem close_calls (o : Outlook) :
    (c.close o).2.calls = c.calls ++ c.remote.toList.map .close := by
  cases h : c.remote with
  | none => simp [close, h]
  | some n => rw [close_open o h]; rfl

/-- The settings stay. -/
@[simp] theorem close_settings (o : Outlook) :
    (c.close o).2.settings = c.settings := by
  cases h : c.remote with
  | none => simp [close, h]
  | some n => rw [close_open o h]; rfl

/-- No remote is asked for. -/
@[simp] theorem close_asked (o : Outlook) : (c.close o).2.asked = c.asked := by
  cases h : c.remote with
  | none => simp [close, h]
  | some n => rw [close_open o h]; rfl

/-- Without a remote a traversal is refused, and nothing is sent. -/
private theorem submit_closed (o : Outlook) (steps : List Step) {mode : Value}
    {m : Mode} (hmode : Mode.parse mode = .ok m) (hc : c.Disciplined)
    (h : c.remote = none) :
    c.submit o steps mode = (.error notConnected, c) := by
  simp [submit, hmode, current, hc.together, h]

/-- With one it is sent there, whatever comes of it. -/
private theorem submit_open (o : Outlook) (steps : List Step) {mode : Value}
    {m : Mode} (hmode : Mode.parse mode = .ok m) (hc : c.Disciplined) {n : Nat}
    (h : c.remote = some n) :
    (c.submit o steps mode).2 = c.note (.submit n steps) := by
  simp only [submit, hmode, current, hc.together, h]
  cases o.submitFailure <;> rfl

-- ===================================================== calls and runs keep it

/-- To open asks for a remote, and takes into use what it gets. -/
theorem Disciplined.openUp (hc : c.Disciplined) (o : Outlook) :
    (c.openUp o).2.Disciplined := by
  cases h : c.remote with
  | some n => rw [openUp_open o h]; exact hc
  | none =>
      obtain ⟨e, -, heq⟩ | ⟨url, e, -, heq⟩ | ⟨url, -, heq⟩ :=
        openUp_closed o h
      · rw [heq]; exact hc
      · rw [heq]; exact hc.asking url
      · rw [heq]
        refine (hc.asking url).taking h (Nat.le_refl _) ?_
        simpa [Connection.asking, note] using hc.fresh

/-- To close gives up what there is. -/
theorem Disciplined.close (hc : c.Disciplined) (o : Outlook) :
    (c.close o).2.Disciplined := by
  cases h : c.remote with
  | none => rw [close_closed o hc h]; exact hc
  | some n => rw [close_open o h]; exact hc.givingUp h

/-- To submit sends to what there is, or nothing. -/
theorem Disciplined.submit (hc : c.Disciplined) (o : Outlook)
    (steps : List Step) (mode : Value) :
    (c.submit o steps mode).2.Disciplined := by
  cases hmode : Mode.parse mode with
  | error e => simpa [Connection.submit, hmode] using hc
  | ok m =>
      cases h : c.remote with
      | none => rw [submit_closed o steps hmode hc h]; exact hc
      | some n =>
          rw [submit_open o steps hmode hc h]; exact hc.submitting h steps

/-- Every call keeps it, whatever fails in it. -/
theorem Disciplined.perform (hc : c.Disciplined) (o : Outlook)
    (call : ConnectionCall) :
    (c.perform o call).2.Disciplined := by
  cases call with
  | «open» => exact hc.openUp o
  | close => exact hc.close o
  | reconnect => exact (hc.close o).openUp o
  | source => exact hc
  | submit steps mode => exact hc.submit o steps mode

/-- What every call keeps, every run keeps. -/
theorem Disciplined.runCalls (hc : c.Disciplined)
    (run : List (Outlook × ConnectionCall)) :
    (c.runCalls run).Disciplined := by
  induction run generalizing c with
  | nil => exact hc
  | cons first rest ih => exact ih (hc.perform first.1 first.2)

-- =============================================================== what is made

/-- What a call adds: calls of remotes, and as many remotes as it asks for if
they can be made. -/
def Adds (o : Outlook) (c c' : Connection) : Prop :=
  ∃ sent, c'.calls = c.calls ++ sent ∧
    c'.made = c.made + (if o.openFailure.isNone then
      sent.countP RemoteCall.opens else 0)

/-- Nothing is called. -/
theorem Adds.refl (o : Outlook) (c : Connection) : Adds o c c :=
  ⟨[], by simp, by simp⟩

/-- Calls add up, and so do the remotes that were made. -/
theorem Adds.trans {o : Outlook} {a b c : Connection} (h₁ : Adds o a b)
    (h₂ : Adds o b c) :
    Adds o a c := by
  obtain ⟨s₁, hcalls₁, hmade₁⟩ := h₁
  obtain ⟨s₂, hcalls₂, hmade₂⟩ := h₂
  refine ⟨s₁ ++ s₂, by rw [hcalls₂, hcalls₁, List.append_assoc], ?_⟩
  rw [hmade₂, hmade₁, List.countP_append]
  split <;> omega

/-- To open calls once, and makes a remote unless that fails. -/
private theorem adds_openUp (o : Outlook) : Adds o c (c.openUp o).2 := by
  cases h : c.remote with
  | some n => rw [openUp_open o h]; exact .refl o c
  | none =>
      obtain ⟨e, -, heq⟩ | ⟨url, e, ho, heq⟩ | ⟨url, ho, heq⟩ :=
        openUp_closed o h
      · rw [heq]; exact .refl o c
      · rw [heq]; exact ⟨_, rfl, by simp [ho, asking, note]⟩
      · rw [heq]; exact ⟨_,
          rfl, by simp [ho, asking, note, taking, RemoteCall.opens]⟩

/-- To close makes none. -/
private theorem adds_close (o : Outlook) : Adds o c (c.close o).2 := by
  refine ⟨_, close_calls o, ?_⟩
  cases h : c.remote with
  | none => simp [close, h]
  | some n => simp [close_open o h, givingUp, note, RemoteCall.opens]

/-- Neither does to submit. -/
private theorem adds_submit (o : Outlook) (steps : List Step) (mode : Value) :
    Adds o c (c.submit o steps mode).2 := by
  unfold submit
  split
  · exact .refl o c
  · split
    · exact .refl o c
    · cases o.submitFailure <;>
        exact ⟨_, rfl, by simp [note, RemoteCall.opens]⟩

/-- Each call, as it is defined; to connect again is a close and an opening. -/
private theorem adds_perform (o : Outlook) (c : Connection)
    (call : ConnectionCall) : Adds o c (c.perform o call).2 := by
  cases call with
  | «open» => exact adds_openUp o
  | close => exact adds_close o
  | reconnect => exact (adds_close o).trans (adds_openUp o)
  | source => exact .refl o c
  | submit steps mode => exact adds_submit o steps mode

-- ======================================================= one remote at a time

/-- A connection is open after it is opened just when that does not fail. -/
private theorem isOpen_openUp (o : Outlook) :
    (c.openUp o).2.isOpen = (c.openUp o).1.isOk := by
  cases h : c.remote with
  | some n =>
      rw [openUp_open o h]; simp [isOpen, h, Except.isOk, Except.toBool]
  | none =>
      obtain ⟨e, -, heq⟩ | ⟨url, e, -, heq⟩ | ⟨url, -, heq⟩ :=
        openUp_closed o h
      · rw [heq]; simp [isOpen, h, Except.isOk, Except.toBool]
      · rw [heq]; simp [isOpen, h, asking, note, Except.isOk, Except.toBool]
      · rw [heq]; rfl

/-- What a reconnect comes to: it fails and leaves the connection closed, or
the remote in use is closed and after that another one is made, which nothing
has been asked of before. -/
def Reconnects (c : Connection) (r : Checked Value × Connection) : Prop :=
  (r.1.isOk = false ∧ r.2.isOpen = false) ∨
  (r.1.isOk = true ∧ ∃ n url,
    r.2.remote = some n ∧ (∀ call ∈ c.calls, call.remote < n) ∧
    r.2.calls = c.calls ++ c.remote.toList.map .close ++
      [.open n url c.settings.source (arguments c.settings)])

/-- A reconnection closes first, and opens whatever became of the close. -/
theorem reconnects (hc : c.Disciplined) (o : Outlook) :
    Reconnects c (c.perform o .reconnect) := by
  have hclosed : (c.close o).2.remote = none := close_remote o
  simp only [perform, reconnect]
  obtain ⟨e, -, heq⟩ | ⟨url, e, -, heq⟩ | ⟨url, -, heq⟩ :=
    openUp_closed o hclosed
  · rw [heq]
    exact .inl ⟨rfl, by simp [isOpen]⟩
  · rw [heq]
    exact .inl ⟨rfl, by simp [isOpen, asking, note]⟩
  · rw [heq]
    refine .inr ⟨rfl, c.asked + 1, url, by simp [taking], ?_, ?_⟩
    · exact fun call hcall => Nat.lt_succ_of_le (hc.numbered call hcall)
    · simp [taking, asking, note, close_calls]

/-- What a submission comes to: the steps are sent to the remote in use, and
nothing else of the connection changes; without a remote nothing is sent. -/
def Sends (c : Connection) (steps : List Step)
    (r : Checked Value × Connection) : Prop :=
  match c.remote with
  | some n => r.2 = { c with calls := c.calls ++ [.submit n steps] }
  | none => r = (.error notConnected, c)

/-- A mode is read by its own name. -/
private theorem parse_name (mode : Mode) :
    Mode.parse (.text mode.name) = .ok mode := by
  cases mode <;> rfl

/-- What is sent is the traversal, and only to the remote in use. -/
private theorem sends (hc : c.Disciplined) (o : Outlook) (steps : List Step)
    (mode : Mode) :
    Sends c steps (c.perform o (.submit steps (.text mode.name))) := by
  unfold Sends
  split
  next n hn => exact submit_open o steps (parse_name mode) hc hn
  next hnone => exact submit_closed o steps (parse_name mode) hc hnone

/-- At any point of any run, whatever has failed in it: the remotes made are
those closed and the one in use, each is closed at most once and left alone
after that, and the source is there just when the connection is open. Each
further call keeps to this: opening and reconnecting leave the connection open
or fail and leave it closed, closing leaves it closed, and a submission leaves
it as it is. Traversals are values, so that what is submitted is as it was. -/
theorem holds_one_remote (settings : Settings)
    (before : List (Outlook × ConnectionCall)) (o : Outlook)
    (call : ConnectionCall) (steps : List Step) (mode : Mode) :
    let c := (ofSettings settings).runCalls before
    (c.made = (closings c.calls).length + c.isOpen.toNat ∧
      Adds o c (c.perform o call).2) ∧
    ((closings c.calls).Nodup ∧ Final c.calls) ∧
    (c.bound = c.remote ∧ (c.perform o .source).1.isOk = c.isOpen) ∧
    (c.perform o .open).2.isOpen = (c.perform o .open).1.isOk ∧
    (c.perform o .close).2.isOpen = false ∧
    Reconnects c (c.perform o .reconnect) ∧
    Sends c steps (c.perform o (.submit steps (.text mode.name))) := by
  intro c
  have hc : c.Disciplined := (disciplined_ofSettings settings).runCalls before
  refine ⟨⟨hc.balanced, adds_perform o c call⟩, ⟨hc.final.nodup, hc.final⟩,
    ⟨hc.together, ?_⟩, ?_, ?_, reconnects hc o, sends hc o steps mode⟩
  · simp only [perform, source, isOk_map, current, hc.together, isOpen]
    cases c.remote <;> rfl
  · simp only [perform, isOk_map]
    exact isOpen_openUp o
  · simp [perform, isOpen]

end Connection

end GraphMapper
