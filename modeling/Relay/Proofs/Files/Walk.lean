import Relay.Files.Disk
import Relay.Proofs.Keyed

/-!
# Following a path

`Walks` has one rule for each thing that following a path can do and go on: stay, go up, enter a
directory, jump to where a link leads, and end.  A walk that succeeds is exactly a derivation
(`walkFrom_eq_ok_iff`), and what is said here of walks follows its rules.

A walk that goes on after some steps has come to a directory by then (`Walks.split`).  Writing a
file changes no walk but those that lead to it (`Walks.rewritten`): directories and links are as
they were.
-/

namespace Relay.Files

open Bytes (slash dot)

/-! ## Entries of a tree -/

namespace Tree

theorem get?_insert_self (t : Tree) {l : Location} (h : l ≠ []) (e : Entry) :
    (t.insert l e).get? l = some e := by
  rw [get?, if_neg h]
  show ((l, e) :: t.entries.filter (·.1 != l)).lookup l = some e
  rw [lookup_cons_if, if_pos rfl]

theorem get?_insert_of_ne (t : Tree) {l k : Location} (h : k ≠ l) (e : Entry) :
    (t.insert l e).get? k = t.get? k := by
  rw [get?, get?]
  split
  · rfl
  · show ((l, e) :: t.entries.filter (·.1 != l)).lookup k = t.entries.lookup k
    rw [lookup_cons_if, if_neg h, lookup_filter_ne, if_neg h]

theorem ne_nil_of_get?_file {t : Tree} {l : Location} {content : Bytes} {executable : Bool}
    (h : t.get? l = some (.file content executable)) : l ≠ [] := by
  rintro rfl
  rw [get?, if_pos rfl] at h
  cases h

end Tree

/-! ## Walks -/

/-- A step that is the name of an entry. -/
structure IsName (step : Bytes) : Prop where
  ne_dot : step ≠ [dot]
  ne_up : step ≠ Path.up
  fits : ¬ nameLimit < step.length

/-- Following steps from a directory leads to a place. -/
inductive Walks (t : Tree) (follow : Bool) :
    (closed : Bool) → (links : Nat) → (here : Location) → List Bytes → Place → Prop where
  | stop {closed : Bool} {links : Nat} {here : Location} {e : Entry} : t.get? here = some e →
      (closed = true → e = .directory) → Walks t follow closed links here [] (.found here e)
  | stay {closed : Bool} {links : Nat} {here : Location} {rest : List Bytes} {place : Place} :
      t.get? here = some .directory → Walks t follow closed links here rest place →
      Walks t follow closed links here ([dot] :: rest) place
  | up {closed : Bool} {links : Nat} {here : Location} {rest : List Bytes} {place : Place} :
      t.get? here = some .directory → Walks t follow closed links here.dropLast rest place →
      Walks t follow closed links here (Path.up :: rest) place
  | free {closed : Bool} {links : Nat} {here : Location} {step : Bytes} :
      t.get? here = some .directory → IsName step → t.get? (here ++ [step]) = none →
      Walks t follow closed links here [step] (.free here step closed)
  /-- A link at the end that is not followed. -/
  | keep {links : Nat} {here : Location} {step target : Bytes} :
      t.get? here = some .directory → IsName step →
      t.get? (here ++ [step]) = some (.link target) → follow = false →
      Walks t follow false links here [step] (.found (here ++ [step]) (.link target))
  | jump {closed : Bool} {links : Nat} {here : Location} {step target : Bytes}
      {rest : List Bytes} {place : Place} : t.get? here = some .directory → IsName step →
      t.get? (here ++ [step]) = some (.link target) →
      ¬ (rest = [] ∧ follow = false ∧ closed = false) →
      Walks t follow (if rest = [] then closed || asksDirectory target else closed) links
        (if target.head? = some slash then [] else here) (steps target ++ rest) place →
      Walks t follow closed (links + 1) here (step :: rest) place
  | enter {closed : Bool} {links : Nat} {here : Location} {step : Bytes} {e : Entry}
      {rest : List Bytes} {place : Place} : t.get? here = some .directory → IsName step →
      t.get? (here ++ [step]) = some e → (∀ target, e ≠ .link target) →
      Walks t follow closed links (here ++ [step]) rest place →
      Walks t follow closed links here (step :: rest) place

theorem walks_of_walkFrom {t : Tree} {follow closed : Bool} {links : Nat} {here : Location}
    {xs : List Bytes} {place : Place} (h : walkFrom t follow closed links here xs = .ok place) :
    Walks t follow closed links here xs place := by
  fun_induction walkFrom t follow closed links here xs with
  -- the walk fails
  | case1 | case3 | case4 | case7 | case9 | case11 | case14 => cases h
  | case2 closed links here e he hclosed =>
      cases h
      refine .stop he fun hc => ?_
      simpa [hc] using hclosed
  | case5 closed links here rest hdir ih => exact .stay hdir (ih h)
  | case6 closed links here rest hdir _ ih => exact .up hdir (ih h)
  | case8 closed links here step hdir hdot hup hfits _ hnone =>
      cases h
      exact .free hdir ⟨hdot, hup, hfits⟩ hnone
  | case10 closed links here step rest hdir hdot hup hfits _ target hlink hkeep =>
      obtain ⟨rfl, hfollow, hclosed⟩ := hkeep
      cases h
      obtain rfl : closed = false := by simpa using hclosed
      exact .keep hdir ⟨hdot, hup, hfits⟩ hlink (by simpa using hfollow)
  | case12 closed here step rest hdir hdot hup hfits _ target hlink hkeep links _ _ ih =>
      refine .jump hdir ⟨hdot, hup, hfits⟩ hlink ?_ (ih h)
      simpa using hkeep
  | case13 closed links here step rest hdir hdot hup hfits _ e hentry hlink ih =>
      exact .enter hdir ⟨hdot, hup, hfits⟩ hlink (fun target he => hentry target he) (ih h)

theorem walkFrom_of_walks {t : Tree} {follow closed : Bool} {links : Nat} {here : Location}
    {xs : List Bytes} {place : Place} (h : Walks t follow closed links here xs place) :
    walkFrom t follow closed links here xs = .ok place := by
  induction h with
  | @stop closed links here e he hclosed =>
      have hcond : ¬ ((closed && e != .directory) = true) := by
        intro hc
        obtain ⟨hc, hne⟩ := Bool.and_eq_true_iff.mp hc
        simp [hclosed hc] at hne
      rw [walkFrom, he]
      exact if_neg hcond
  | stay hdir _ ih =>
      rw [walkFrom, hdir]
      simpa using ih
  | up hdir _ ih =>
      have hne : Path.up ≠ [dot] := by decide
      rw [walkFrom, hdir]
      simpa [hne] using ih
  | free hdir hname hnone =>
      rw [walkFrom, hdir]
      simp [hname.ne_dot, hname.ne_up, hname.fits, hnone]
  | keep hdir hname hlink hfollow =>
      rw [walkFrom, hdir]
      simp [hname.ne_dot, hname.ne_up, hname.fits, hlink, hfollow]
  | @jump closed links here step target rest place hdir hname hlink hkeep _ ih =>
      have hcond : ¬ (rest = [] ∧ (!follow) = true ∧ (!closed) = true) := by simpa using hkeep
      rw [walkFrom, hdir]
      simp only [if_neg hname.ne_dot, if_neg hname.ne_up, if_neg hname.fits, hlink, if_neg hcond]
      exact ih
  | @enter closed links here step e rest place hdir hname hentry hlink _ ih =>
      rw [walkFrom, hdir]
      simp only [if_neg hname.ne_dot, if_neg hname.ne_up, if_neg hname.fits, hentry]
      cases e with
      | link target => exact absurd rfl (hlink target)
      | _ => exact ih

/-- A walk that succeeds is a derivation. -/
theorem walkFrom_eq_ok_iff {t : Tree} {follow closed : Bool} {links : Nat} {here : Location}
    {xs : List Bytes} {place : Place} :
    walkFrom t follow closed links here xs = .ok place ↔
      Walks t follow closed links here xs place :=
  ⟨walks_of_walkFrom, walkFrom_of_walks⟩

theorem Tree.walk_eq_ok_iff {t : Tree} {follow : Bool} {cwd : Location} {p : Path}
    {place : Place} :
    t.walk follow cwd p = .ok place ↔
      (0 ∉ p.bytes ∧ p.bytes ≠ [] ∧ p.bytes.length ≤ pathLimit) ∧
        Walks t follow (asksDirectory p.bytes) linkLimit (if p.isAbsolute then [] else cwd)
          (steps p.bytes) place := by
  rw [← walkFrom_eq_ok_iff, walk]
  by_cases hzero : 0 ∈ p.bytes
  · simp [hzero]
  by_cases hempty : p.bytes = []
  · simp [hempty]
  by_cases hlong : pathLimit < p.bytes.length
  · simp [hzero, hempty, hlong, Nat.not_le_of_lt hlong]
  simp only [List.contains_eq_mem, decide_eq_true_eq, if_neg hzero, if_neg hempty, if_neg hlong]
  constructor
  · intro h
    refine ⟨⟨hzero, hempty, Nat.le_of_not_lt hlong⟩, ?_⟩
    split at h
    · next found hwalk =>
      cases h
      exact hwalk
    · cases h
  · rintro ⟨-, hwalk⟩
    rw [hwalk]

namespace Walks

variable {t : Tree} {follow closed : Bool} {links : Nat} {here : Location}

theorem get?_of_found {xs : List Bytes} {l : Location} {e : Entry}
    (h : Walks t follow closed links here xs (.found l e)) : t.get? l = some e := by
  generalize hplace : Place.found l e = place at h
  induction h with
  | stop he _ =>
      cases hplace
      exact he
  | stay _ _ ih | up _ _ ih | jump _ _ _ _ _ ih | enter _ _ _ _ _ ih => exact ih hplace
  | free _ _ _ => cases hplace
  | keep _ _ hlink _ =>
      cases hplace
      exact hlink

theorem get?_of_free {xs : List Bytes} {dir : Location} {name : Bytes} {final : Bool}
    (h : Walks t follow closed links here xs (.free dir name final)) :
    t.get? (dir ++ [name]) = none := by
  generalize hplace : Place.free dir name final = place at h
  induction h with
  | stop _ _ | keep _ _ _ _ => cases hplace
  | stay _ _ ih | up _ _ ih | jump _ _ _ _ _ ih | enter _ _ _ _ _ ih => exact ih hplace
  | free _ _ hnone =>
      cases hplace
      exact hnone

/-- A walk that goes on after the steps `xs` has come to a directory, and comes there also when
links at the end are followed or a directory is asked for. -/
theorem split {xs : List Bytes} {y : Bytes} {ys : List Bytes} {place : Place}
    (h : Walks t follow closed links here (xs ++ y :: ys) place) :
    ∃ l, ∀ asked, Walks t true asked links here xs (.found l .directory) := by
  generalize hsteps : xs ++ y :: ys = zs at h
  induction h generalizing xs with
  | stop _ _ => simp at hsteps
  | @stay closed links here rest place hdir _ ih =>
      cases xs with
      | nil => exact ⟨here, fun _ => .stop hdir fun _ => rfl⟩
      | cons x xs =>
          obtain ⟨rfl, hrest⟩ := List.cons.inj hsteps
          obtain ⟨l, hl⟩ := ih hrest
          exact ⟨l, fun asked => .stay hdir (hl asked)⟩
  | @up closed links here rest place hdir _ ih =>
      cases xs with
      | nil => exact ⟨here, fun _ => .stop hdir fun _ => rfl⟩
      | cons x xs =>
          obtain ⟨rfl, hrest⟩ := List.cons.inj hsteps
          obtain ⟨l, hl⟩ := ih hrest
          exact ⟨l, fun asked => .up hdir (hl asked)⟩
  | @free closed links here step hdir _ _ | @keep links here step target hdir _ _ _ =>
      cases xs with
      | nil => exact ⟨here, fun _ => .stop hdir fun _ => rfl⟩
      | cons x xs => simp at hsteps
  | @jump closed links here step target rest place hdir hname hlink _ _ ih =>
      cases xs with
      | nil => exact ⟨here, fun _ => .stop hdir fun _ => rfl⟩
      | cons x xs =>
          obtain ⟨rfl, rfl⟩ := List.cons.inj hsteps
          -- the steps of the target come before what is left of `xs`
          obtain ⟨l, hl⟩ := ih (List.append_assoc (steps target) xs (y :: ys))
          exact ⟨l, fun asked => .jump hdir hname hlink (by simp) (hl _)⟩
  | @enter closed links here step e rest place hdir hname hentry hlink _ ih =>
      cases xs with
      | nil => exact ⟨here, fun _ => .stop hdir fun _ => rfl⟩
      | cons x xs =>
          obtain ⟨rfl, hrest⟩ := List.cons.inj hsteps
          obtain ⟨l, hl⟩ := ih hrest
          exact ⟨l, fun asked => .enter hdir hname hentry hlink (hl asked)⟩

/-- What is found with links followed is found, perhaps as a link, when the last is not. -/
theorem unfollowed {xs : List Bytes} {l : Location} {e : Entry}
    (h : Walks t true closed links here xs (.found l e)) :
    ∃ l' e', Walks t false closed links here xs (.found l' e') := by
  generalize hplace : Place.found l e = place at h
  induction h with
  | stop he hclosed => exact ⟨_, _, .stop he hclosed⟩
  | stay hdir _ ih =>
      obtain ⟨l', e', hwalk⟩ := ih hplace
      exact ⟨l', e', .stay hdir hwalk⟩
  | up hdir _ ih =>
      obtain ⟨l', e', hwalk⟩ := ih hplace
      exact ⟨l', e', .up hdir hwalk⟩
  | free _ _ _ => cases hplace
  | keep _ _ _ hfollow => cases hfollow
  | @jump closed links here step target rest place hdir hname hlink _ _ ih =>
      -- the walk that does not follow its last link ends here if this is the last
      by_cases hkeep : rest = [] ∧ closed = false
      · obtain ⟨rfl, rfl⟩ := hkeep
        exact ⟨_, _, .keep hdir hname hlink rfl⟩
      · obtain ⟨l', e', hwalk⟩ := ih hplace
        refine ⟨l', e', .jump hdir hname hlink ?_ hwalk⟩
        rintro ⟨hrest, -, hclosed⟩
        exact hkeep ⟨hrest, hclosed⟩
  | enter hdir hname hentry hlink _ ih =>
      obtain ⟨l', e', hwalk⟩ := ih hplace
      exact ⟨l', e', .enter hdir hname hentry hlink hwalk⟩

end Walks

/-! ## Writing a file -/

/-- `t'` is `t` with a file written at `l`, where there was a file or nothing. -/
structure Rewritten (t t' : Tree) (l : Location) (file : Entry) : Prop where
  others : ∀ k, k ≠ l → t'.get? k = t.get? k
  written : t'.get? l = some file
  isFile : ∃ content executable, file = .file content executable
  was : ∀ e, t.get? l = some e → ∃ content executable, e = .file content executable

namespace Rewritten

variable {t t' : Tree} {l : Location} {file : Entry}

theorem insert (hl : l ≠ []) (content : Bytes) (executable : Bool)
    (was : ∀ e, t.get? l = some e → ∃ content executable, e = .file content executable) :
    Rewritten t (t.insert l (.file content executable)) l (.file content executable) :=
  ⟨fun _ hk => t.get?_insert_of_ne hk _, t.get?_insert_self hl _, ⟨_, _, rfl⟩, was⟩

/-- A directory stays what it is. -/
theorem directory (h : Rewritten t t' l file) {k : Location} (hk : t.get? k = some .directory) :
    t'.get? k = some .directory := by
  rw [h.others k, hk]
  rintro rfl
  obtain ⟨content, executable, he⟩ := h.was _ hk
  cases he

/-- A link stays what it is. -/
theorem link (h : Rewritten t t' l file) {k : Location} {target : Bytes}
    (hk : t.get? k = some (.link target)) : t'.get? k = some (.link target) := by
  rw [h.others k, hk]
  rintro rfl
  obtain ⟨content, executable, he⟩ := h.was _ hk
  cases he

end Rewritten

/-- Where a walk ends after a file was written at `l`. -/
def Place.rewritten (l : Location) (file : Entry) : Place → Place
  | .found k e => if k = l then .found l file else .found k e
  | .free dir name closed => if dir ++ [name] = l then .found l file else .free dir name closed

/-- A walk goes as before, and finds the file where it was written. -/
theorem Walks.rewritten {t t' : Tree} {l : Location} {file : Entry} (h : Rewritten t t' l file)
    {follow closed : Bool} {links : Nat} {here : Location} {xs : List Bytes} {place : Place}
    (hwalk : Walks t follow closed links here xs place)
    (hopen : ∀ dir name, place ≠ .free dir name true) :
    Walks t' follow closed links here xs (place.rewritten l file) := by
  induction hwalk with
  | @stop closed links here e he hclosed =>
      by_cases hhere : here = l
      · subst hhere
        obtain ⟨content, executable, rfl⟩ := h.was e he
        rw [Place.rewritten, if_pos rfl]
        refine .stop h.written fun hc => ?_
        cases hclosed hc
      · rw [Place.rewritten, if_neg hhere]
        exact .stop (by rw [h.others here hhere, he]) hclosed
  | stay hdir _ ih => exact .stay (h.directory hdir) (ih hopen)
  | up hdir _ ih => exact .up (h.directory hdir) (ih hopen)
  | @free closed links here step hdir hname hnone =>
      by_cases hnew : here ++ [step] = l
      · obtain ⟨content, executable, rfl⟩ := h.isFile
        rw [Place.rewritten, if_pos hnew]
        have hclosed : closed = false := by
          cases closed with
          | false => rfl
          | true => exact absurd rfl (hopen here step)
        subst hnew
        refine .enter (h.directory hdir) hname h.written nofun ?_
        exact .stop h.written (by simp [hclosed])
      · rw [Place.rewritten, if_neg hnew]
        exact .free (h.directory hdir) hname (by rw [h.others _ hnew, hnone])
  | @keep links here step target hdir hname hlink hfollow =>
      have hne : here ++ [step] ≠ l := by
        rintro rfl
        obtain ⟨content, executable, he⟩ := h.was _ hlink
        cases he
      rw [Place.rewritten, if_neg hne]
      exact .keep (h.directory hdir) hname (h.link hlink) hfollow
  | jump hdir hname hlink hkeep _ ih =>
      exact .jump (h.directory hdir) hname (h.link hlink) hkeep (ih hopen)
  | @enter closed links here step e rest place hdir hname hentry hlink _ ih =>
      by_cases hnew : here ++ [step] = l
      · obtain ⟨content, executable, rfl⟩ := h.isFile
        have hwritten : t'.get? (here ++ [step]) = some (.file content executable) := by
          rw [hnew, h.written]
        exact .enter (h.directory hdir) hname hwritten nofun (ih hopen)
      · exact .enter (h.directory hdir) hname (by rw [h.others _ hnew, hentry]) hlink (ih hopen)

end Relay.Files
