import WakeSol.Trace.Forgery

set_option autoImplicit false

namespace WakeSol.Trace

open TextLib RadixLib RoseLib

def Body.append : Body → Body → Body
  | .done, other => other
  | .own item rest, other => .own item (rest.append other)
  | .call callee inner close rest, other => .call callee inner close (rest.append other)

inductive Hole where
  | here (first second : Body)
  | inside (first : Body) (callee : Call) (hole : Hole) (close : Close) (second : Body)

def Hole.fill (extra : Body) : Hole → Body
  | .here first second => first.append (extra.append second)
  | .inside first callee hole close second => first.append (.call callee (hole.fill extra) close second)

def Hole.before : Hole → List Text
  | .here first _ => first.lines
  | .inside first callee hole _ _ => first.lines ++ invokeLine callee.programId.text callee.stackHeight :: hole.before

def Hole.after : Hole → List Text
  | .here _ second => second.lines
  | .inside _ callee hole close second => hole.after ++ (close.lines callee.programId.text ++ second.lines)

def Hole.offset : Hole → Nat
  | .here _ _ => 0
  | .inside first _ hole _ _ => first.pids.length + 1 + hole.offset

def Hole.position : Hole → Nat
  | .here first _ => (first.items.filterMap Item.message).length
  | .inside _ _ hole _ _ => hole.position

structure Site where
  earlier : List Entry
  callee : Call
  hole : Hole
  close : Close
  later : List Entry
  pending : List Call

def Site.run (site : Site) (extra : Body) : Run where
  entries := site.earlier ++ .frame site.callee (site.hole.fill extra) site.close :: site.later
  pending := site.pending

def Site.before (site : Site) : List Text :=
  site.earlier.flatMap Entry.lines ++ invokeLine site.callee.programId.text site.callee.stackHeight :: site.hole.before

def Site.after (site : Site) : List Text :=
  site.hole.after ++ (site.close.lines site.callee.programId.text ++ site.later.flatMap Entry.lines)

def Site.node (site : Site) : Nat := (site.earlier.flatMap Entry.pids).length + site.hole.offset

section Append

variable (first second : Body)

theorem lines_append : (first.append second).lines = first.lines ++ second.lines := by
  induction first with
  | done => rfl
  | own item rest ih => simp [Body.append, Body.lines, ih]
  | call callee inner close rest _ ih => simp [Body.append, Body.lines, ih]

theorem pids_append : (first.append second).pids = first.pids ++ second.pids := by
  induction first with
  | done => rfl
  | own item rest ih => simp [Body.append, Body.pids, ih]
  | call callee inner close rest _ ih => simp [Body.append, Body.pids, ih]

theorem idle_append : (first.append second).idle = first.idle ++ second.idle := by
  simp [Body.idle, pids_append]

theorem forest_append (mark : Body → Close → Enrichment) :
    (first.append second).forest mark = first.forest mark ++ second.forest mark := by
  induction first with
  | done => rfl
  | own item rest ih => simp [Body.append, Body.forest, ih]
  | call callee inner close rest _ ih => simp [Body.append, Body.forest, ih]

theorem valid_append (valid : (first.append second).Valid) : first.Valid ∧ second.Valid := by
  induction first with
  | done => exact ⟨trivial, valid⟩
  | own item rest ih =>
    obtain ⟨validRest, validSecond⟩ := ih valid.2
    exact ⟨⟨valid.1, validRest⟩, validSecond⟩
  | call callee inner close rest _ ih =>
    obtain ⟨logged, validInner, validClose, others⟩ := valid
    obtain ⟨validRest, validSecond⟩ := ih others
    exact ⟨⟨logged, validInner, validClose, validRest⟩, validSecond⟩

end Append

theorem hole_lines (hole : Hole) (extra : Body) : (hole.fill extra).lines = hole.before ++ (extra.lines ++ hole.after) := by
  induction hole with
  | here first second => simp [Hole.fill, Hole.before, Hole.after, lines_append]
  | inside first callee hole close second ih =>
    simp [Hole.fill, Hole.before, Hole.after, lines_append, Body.lines, frameLines, ih]

theorem hole_forest (hole : Hole) (item : Item) :
    (hole.fill (.own item .done)).forest (fun _ _ => {}) = (hole.fill .done).forest fun _ _ => {} := by
  induction hole with
  | here first second => simp [Hole.fill, forest_append, Body.append, Body.forest]
  | inside first callee hole close second ih => simp [Hole.fill, forest_append, Body.forest, ih]

theorem hole_offset (hole : Hole) : hole.offset ≤ (hole.fill .done).pids.length := by
  induction hole with
  | here first second => exact Nat.zero_le _
  | inside first callee hole close second ih =>
    simp only [Hole.offset, Hole.fill, pids_append, Body.pids, List.length_append, List.length_cons]
    omega

theorem site_lines (site : Site) (extra : Body) : (site.run extra).lines = site.before ++ (extra.lines ++ site.after) := by
  simp [Run.lines, Site.run, Site.before, Site.after, Entry.lines, frameLines, hole_lines]

theorem site_bare (site : Site) (item : Item) : (site.run (.own item .done)).bare = (site.run .done).bare := by
  simp [Run.bare, Run.forest, Site.run, Entry.tree, hole_forest]

theorem site_node (site : Site) : site.node < (forestPreorder (site.run .done).bare).length := by
  have pids := run_pids (fun _ _ => {}) (site.run .done)
  have length := congrArg List.length pids
  have offset := hole_offset site.hole
  simp only [collectPids, Site.run, List.flatMap_append, List.flatMap_cons, Entry.pids, List.length_map, List.length_append,
    List.length_cons] at length
  simp only [Run.bare, Site.run, Site.node]
  omega

theorem hole_opened (hole : Hole) (valid : (hole.fill .done).Valid) (front back : List Text) (before after : List Enrichment)
    (below : List Nat) (cursor : before.length + 1 = front.length) :
    ∃ found e rest under next,
      attachRun (front ++ (hole.fill .done).pids ++ back)
          (opened before {} ((hole.fill .done).idle ++ after) below front.length) hole.before =
        opened found e rest under next ∧
      found.length = before.length + hole.offset ∧ e.logs.length = hole.position := by
  induction hole generalizing front back before after below with
  | here first second =>
    obtain ⟨validFirst, -⟩ := valid_append first (Body.done.append second) valid
    have ran := attach_body first validFirst front (second.pids ++ back) before [] {} (second.idle ++ after) below
      (by simpa using cursor)
    refine ⟨before, first.items.foldl Item.record {}, first.found ++ (second.idle ++ after), below,
      (front ++ first.pids).length, ?_, rfl, ?_⟩
    · simpa [Hole.fill, Hole.before, Body.append, pids_append, idle_append] using ran
    · simp [record_items, Hole.position]
  | inside first callee hole close second ih =>
    obtain ⟨validFirst, logged, validInner, -, -⟩ := valid_append first _ valid
    have ran := attach_body first validFirst front
      (callee.programId.text :: ((hole.fill .done).pids ++ (second.pids ++ back))) before [] {}
      ({} :: ((hole.fill .done).idle ++ (second.idle ++ after))) below (by simpa using cursor)
    have invoked := attach_invoke (front ++ first.pids) [] callee ((hole.fill .done).pids ++ (second.pids ++ back))
      (before ++ first.items.foldl Item.record {} :: first.found)
      ((hole.fill .done).idle ++ (second.idle ++ after)) (before.length :: below) (by simp) logged
      (by simp only [List.length_append, List.length_cons, found_length, List.length_nil]; omega)
    obtain ⟨found, e, rest, under, next, reachedHole, length, logs⟩ := ih validInner
      (front ++ first.pids ++ [callee.programId.text]) (second.pids ++ back)
      (before ++ first.items.foldl Item.record {} :: first.found) (second.idle ++ after) (before.length :: below)
      (by simp only [List.length_append, List.length_cons, found_length, List.length_nil]; omega)
    refine ⟨found, e, rest, under, next, ?_, ?_, logs⟩
    · have cursorHere : (before ++ first.items.foldl Item.record {} :: first.found).length + 1 =
          (front ++ first.pids ++ [callee.programId.text]).length := by
        simp only [List.length_append, List.length_cons, found_length, List.length_nil]
        omega
      rw [← reachedHole, ← cursorHere]
      simp only [opened, Hole.fill, Hole.before, pids_append, idle_append, Body.pids, idle_call, attachRun,
        List.foldl_append, List.foldl_cons, List.append_assoc, List.cons_append, List.nil_append] at ran invoked ⊢
      rw [ran, invoked]
    · simp only [length, Hole.offset, List.length_append, List.length_cons, found_length]
      omega

theorem entries_found (entries : List Entry) :
    (entries.flatMap Entry.found).length = (entries.flatMap Entry.pids).length := by
  induction entries with
  | nil => rfl
  | cons entry rest ih =>
    cases entry with
    | frame callee inner close =>
      simp only [List.flatMap_cons, Entry.found, Entry.pids, List.length_append, List.length_cons, found_length, ih]
    | precompile callee =>
      simp only [List.flatMap_cons, Entry.found, Entry.pids, List.length_append, ih]
      rfl

def Site.restPids (site : Site) : List Text :=
  site.later.flatMap Entry.pids ++ site.pending.map fun callee => callee.programId.text

def Site.restIdle (site : Site) : List Enrichment :=
  site.later.flatMap Entry.idle ++ List.replicate site.pending.length ({} : Enrichment)

theorem site_pids (site : Site) : collectPids (site.run .done).bare =
    site.earlier.flatMap Entry.pids ++ site.callee.programId.text :: ((site.hole.fill .done).pids ++ site.restPids) := by
  rw [Run.bare, run_pids]
  simp [Site.run, Site.restPids, Entry.pids]

theorem site_init (site : Site) : attachInit (collectPids (site.run .done).bare).length =
    ⟨site.earlier.flatMap Entry.idle ++ {} :: ((site.hole.fill .done).idle ++ site.restIdle), [], 0, true⟩ := by
  have entryIdle : (Entry.frame site.callee (site.hole.fill .done) site.close).idle = {} :: (site.hole.fill .done).idle := by
    simp [Entry.idle, Entry.pids, Body.idle, List.replicate_succ]
  rw [Run.bare, attach_init_run]
  simp [Site.run, Site.restIdle, entryIdle]

theorem reached_site (site : Site) (valid : (site.run .done).Valid) :
    (reached (site.run .done).bare site.before).stack.head? = some site.node ∧
      logCount (reached (site.run .done).bare site.before).nodes site.node = site.hole.position := by
  have validEarlier : ∀ entry ∈ site.earlier, entry.Valid := fun entry member =>
    valid entry (List.mem_append_left _ member)
  obtain ⟨logged, validInner, -⟩ : Entry.Valid (.frame site.callee (site.hole.fill .done) site.close) :=
    valid _ (List.mem_append_right _ (List.mem_cons_self ..))
  have cursor : (site.earlier.flatMap Entry.found).length + 1 =
      (site.earlier.flatMap Entry.pids ++ [site.callee.programId.text]).length := by
    rw [entries_found, List.length_append]
    rfl
  obtain ⟨front, skipped, shape, silent, ran⟩ := attach_entries site.earlier validEarlier [] []
    (site.callee.programId.text :: ((site.hole.fill .done).pids ++ site.restPids)) []
    ({} :: ((site.hole.fill .done).idle ++ site.restIdle)) (by simp) rfl
  have invoked := attach_invoke front skipped site.callee ((site.hole.fill .done).pids ++ site.restPids)
    (site.earlier.flatMap Entry.found) ((site.hole.fill .done).idle ++ site.restIdle) [] silent logged
    (by rw [shape, entries_found]; rfl)
  obtain ⟨found, e, rest, under, next, inHole, length, logs⟩ := hole_opened site.hole validInner
    (site.earlier.flatMap Entry.pids ++ [site.callee.programId.text]) site.restPids (site.earlier.flatMap Entry.found)
    site.restIdle [] cursor
  have final : reached (site.run .done).bare site.before = opened found e rest under next := by
    rw [← inHole, ← cursor, reached, site_init, site_pids, Site.before]
    rw [shape] at invoked
    simp only [attachRun, List.append_assoc, List.cons_append, List.nil_append, List.foldl_append, List.foldl_cons,
      List.length_nil] at ran invoked ⊢
    rw [ran, invoked]
  rw [final, Site.node, ← entries_found, ← length]
  refine ⟨rfl, ?_⟩
  rw [← logs]
  simp [opened, logCount, nodeAt]

def Site.position (site : Site) : Nat := logCount (reached (site.run .done).bare site.before).nodes site.node

def Site.Inert (site : Site) (text : Text) : Prop :=
  attachLogs (site.run (.own (.log text) .done)).bare (site.run (.own (.log text) .done)).lines =
    addLog site.node site.position text (attachLogs (site.run .done).bare (site.run .done).lines)

theorem logged_text_inert (site : Site) (text : Text) (nonempty : text ≠ []) (trimmed : Trimmed text) :
    (site.Inert text ↔ verbOf (firstWord text) = none ∧
      (reached (site.run .done).bare site.before).stack.head? = some site.node) ∧
    ((site.run .done).Valid → site.position = site.hole.position ∧
      (site.Inert text ↔ verbOf (firstWord text) = none)) := by
  have general : site.Inert text ↔ verbOf (firstWord text) = none ∧
      (reached (site.run .done).bare site.before).stack.head? = some site.node := by
    rw [Site.Inert, site_bare, site_lines, site_lines]
    exact inert_iff (site.run .done).bare site.before site.after site.node text nonempty trimmed (site_node site)
  refine ⟨general, fun valid => ?_⟩
  obtain ⟨isOpen, position⟩ := reached_site site valid
  refine ⟨position, general.trans ?_⟩
  exact ⟨fun both => both.1, fun plain => ⟨plain, isOpen⟩⟩

def failingFrame : Site where
  earlier := []
  callee := ⟨.fill 1, [], [], 1⟩
  hole := .here .done .done
  close := ⟨none, .failed ['b', 'o', 'o', 'm']⟩
  later := []
  pending := []

theorem greeting_inert : ['h', 'i'] ≠ [] ∧ Trimmed ['h', 'i'] ∧ failingFrame.Inert ['h', 'i'] := by
  have valid : (failingFrame.run .done).Valid := by decide +kernel
  exact ⟨by decide, by decide, (((logged_text_inert failingFrame ['h', 'i'] (by decide) (by decide)).2 valid).2).mpr (by decide)⟩

-- The program logs the word of a success marker: the trace then shows a success
-- where the frame failed, and the error text is gone.
theorem success_forged : (failingFrame.run .done).Valid ∧ successWord ≠ [] ∧ Trimmed successWord ∧
    ¬ failingFrame.Inert successWord ∧
    (reached (failingFrame.run .done).bare (failingFrame.run .done).lines).nodes =
      [{ status := .failed, errorMsg := some ['b', 'o', 'o', 'm'] }] ∧
    (reached (failingFrame.run .done).bare (failingFrame.run (.own (.log successWord) .done)).lines).nodes =
      [{ status := .success }] := by
  refine ⟨by decide +kernel, by decide, by decide, ?_, by decide +kernel, by decide +kernel⟩
  rw [Site.Inert, site_bare, site_lines, site_lines]
  intro inert
  have plain := (inert_iff (failingFrame.run .done).bare failingFrame.before failingFrame.after failingFrame.node successWord
    (by decide) (by decide) (site_node failingFrame)).mp inert
  exact absurd plain.1 (by decide)

end WakeSol.Trace
