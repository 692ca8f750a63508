import AjpGateway.Proofs.Routing.Reloading
import AjpGateway.Proofs.Routing.Resolution

/-!
# Exclusions

An exclusion that no later rule replaces keeps its paths from its worker, whatever other mounts the
table was built from, and whether a rule accepts the path or only recognises a disguise in it.  A
later exclusion with the same pattern replaces it, also one for another worker.

    a mount whose rule `x` no later rule replaces → InForce mounts x              (inForce_of_mount)
    t.resolve uri = some found → the path is not excluded for `found.worker`
                                                                       (not_excluded_of_resolve)
-/

namespace AjpGateway.RuleTable

variable {mounts before after : List Mount} {m : Mount} {earlier later : List Rule} {x : Rule}
  {generation : Nat} {t : RuleTable}

/-- A rule of a mount is in force if no rule that comes later has its key, in the same mount or in
one after it. -/
theorem inForce_of_mount (h : build mounts generation = .ok t)
    (hmounts : mounts = before ++ m :: after)
    (hread : Rule.readMount m.pattern m.worker = .ok (earlier ++ x :: later))
    (hlater : ∀ s ∈ later, ¬ x.SameKey s)
    (hafter : ∀ m' ∈ after, ∀ rules', Rule.readMount m'.pattern m'.worker = .ok rules' →
      ∀ s ∈ rules', ¬ x.SameKey s) :
    InForce mounts x := by
  obtain ⟨all, hall, -⟩ := exists_rules_of_build h
  refine ⟨all, hall, ?_⟩
  obtain ⟨lists, hlists, rfl⟩ := map_eq_ok_iff.1 hall
  rw [hmounts] at hlists
  have hfrom := List.forall₂_drop_append lists before (m :: after) (mapM_eq_ok_iff.1 hlists).flip
  obtain ⟨list, rest, hlist, hrest, he⟩ := List.forall₂_cons_right_iff.1 hfrom
  obtain rfl : list = earlier ++ x :: later := Except.ok.inj (hlist.symm.trans hread)
  have hflatten : lists.flatten =
      (lists.take before.length).flatten ++ (earlier ++ x :: later) ++ rest.flatten := by
    conv_lhs => rw [← List.take_append_drop before.length lists, he]
    simp
  refine ⟨(lists.take before.length).flatten ++ earlier, later ++ rest.flatten, ?_, fun s hs => ?_⟩
  · rw [hflatten]
    simp
  rcases List.mem_append.1 hs with hs | hs
  · exact hlater s hs
  · obtain ⟨rules', hrules', hs⟩ := List.mem_flatten.1 hs
    obtain ⟨m', hm', hread'⟩ := exists_of_forall₂_left hrest hrules'
    exact hafter m' hm' rules' hread' s hs

/-- A path is never sent to a worker from which it is excluded. -/
theorem not_excluded_of_resolve {uri : String} {found : Resolution}
    (h : t.resolve uri = some found) :
    t.excluded found.worker (SessionMarker.strip uri.toList) = false := by
  unfold resolve at h
  split at h
  · cases h
  · obtain ⟨⟨r, fraud⟩, -, h⟩ := Option.bind_eq_some_iff.1 h
    dsimp only at h
    split at h
    · cases h
    · next hx =>
      cases h
      exact Bool.eq_false_iff.2 hx

/-- **Exclusions in force are honoured.**  Where a mount stands for an exclusion that is switched on
and that no later rule replaces, its worker is sent no URI whose path the exclusion accepts, whatever
mounts stand before it and after it. -/
theorem never_sent_where_excluded (h : build mounts generation = .ok t)
    (hmounts : mounts = before ++ m :: after)
    (hread : Rule.readMount m.pattern m.worker = .ok (earlier ++ x :: later))
    (hexcludes : x.excludes = true) (hon : x.disabled = false)
    (hlater : ∀ s ∈ later, ¬ x.SameKey s)
    (hafter : ∀ m' ∈ after, ∀ rules', Rule.readMount m'.pattern m'.worker = .ok rules' →
      ∀ s ∈ rules', ¬ x.SameKey s)
    {uri : String} (haccepts : x.accepts (SessionMarker.strip uri.toList) = true) :
    ∀ found, t.resolve uri = some found → found.worker ≠ Text.trimmed m.worker := by
  intro found hfound hworker
  have hforce := inForce_of_mount h hmounts hread hlater hafter
  have hmem : x ∈ earlier ++ x :: later := List.mem_append_right earlier List.mem_cons_self
  have hx : x.worker = found.worker :=
    (Rule.worker_of_readMount hread x hmem).trans hworker.symm
  have hdenied : Denied mounts found.worker (SessionMarker.strip uri.toList) :=
    ⟨x, ⟨hforce, hon, hexcludes⟩, hx, haccepts⟩
  have hexcluded := (excluded_iff_denied h).2 hdenied
  rw [not_excluded_of_resolve hfound] at hexcluded
  cases hexcluded

/-- The second rule of a mount with a bar keeps a disguised page from the worker of a later mount. -/
theorem never_sent_inside : ∃ t,
    build [⟨"!/app/in|/*", " w"⟩, ⟨"/app/*.jsp", "w"⟩] 1 = .ok t ∧
      t.resolve "/app/p.jsp." = some ⟨"w", .ending ".jsp", 5, true⟩ ∧
      ∀ found, t.resolve "/app/in/p.jsp.;jsessionid=1.r" = some found → found.worker ≠ "w" := by
  have hb : build [⟨"!/app/in|/*", " w"⟩, ⟨"/app/*.jsp", "w"⟩] 1 =
      .ok (ofRules [⟨"/app/in", .exact, "w", "/app/in", true, false⟩,
        ⟨"/app/in/*", .under, "w", "/app/in/", true, false⟩,
        ⟨"/app/*.jsp", .ending ".jsp", "w", "/app/", false, false⟩] 1) := by
    decide +kernel
  have hread : Rule.readMount "!/app/in|/*" " w" =
      .ok ([⟨"/app/in", .exact, "w", "/app/in", true, false⟩] ++
        ⟨"/app/in/*", .under, "w", "/app/in/", true, false⟩ :: []) := by
    decide +kernel
  have hafter : Rule.readMount "/app/*.jsp" "w" =
      .ok [⟨"/app/*.jsp", .ending ".jsp", "w", "/app/", false, false⟩] := by
    decide +kernel
  have hmounts : ([⟨"!/app/in|/*", " w"⟩, ⟨"/app/*.jsp", "w"⟩] : List Mount) =
      [] ++ ⟨"!/app/in|/*", " w"⟩ :: [⟨"/app/*.jsp", "w"⟩] := rfl
  have hw : Text.trimmed " w" = "w" := by decide +kernel
  refine ⟨_, hb, by decide +kernel, fun found hfound => ?_⟩
  rw [← hw]
  refine never_sent_where_excluded hb hmounts hread rfl rfl (List.forall_mem_nil _) ?_
    (by decide +kernel) found hfound
  intro m' hm' rules' hrules' s hs
  obtain rfl := List.mem_singleton.1 hm'
  obtain rfl := Except.ok.inj (hrules'.symm.trans hafter)
  obtain rfl := List.mem_singleton.1 hs
  decide

/-- **A later exclusion for another worker lifts one.**  The path is then sent to the worker that the
first exclusion kept it from. -/
theorem sent_where_replaced : ∃ t x y,
    build [⟨"/app/*", "w"⟩, ⟨"!/app/in/*", "w"⟩, ⟨"!/app/in/*", "v"⟩] 1 = .ok t ∧
      Rule.readMount "!/app/in/*" "w" = .ok [x] ∧ x.excludes = true ∧ x.disabled = false ∧
      Rule.readMount "!/app/in/*" "v" = .ok [y] ∧ y.worker ≠ x.worker ∧
      x.accepts (SessionMarker.strip "/app/in/page".toList) = true ∧
      t.resolve "/app/in/page" = some ⟨"w", .under, 5, false⟩ := by
  refine ⟨ofRules [⟨"/app/*", .under, "w", "/app/", false, false⟩,
    ⟨"/app/in/*", .under, "v", "/app/in/", true, false⟩] 1,
    ⟨"/app/in/*", .under, "w", "/app/in/", true, false⟩,
    ⟨"/app/in/*", .under, "v", "/app/in/", true, false⟩, ?_⟩
  decide +kernel

end AjpGateway.RuleTable
