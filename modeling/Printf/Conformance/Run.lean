import Printf.Conformance.Log

/-! A conformance run over loaded sets, one after the other: the digest of a set, the entries of its
skipped cases, its results and their entries. A case that ends in a panic ends the run, and what was
logged before it stays. -/
namespace Printf.Conformance

structure Progress where
  digests : List FixtureDigest := []
  skipped : Nat := 0
  results : List VerificationResult := []
  log : Option LogFile := none

def verifySet (features : Features) (files : Files) (now : Instant) (l : Loaded) (p : Progress) :
    Except RunFailure Unit × Progress :=
  match digest files l with
  | .error e => (.error (.file e), p)
  | .ok digest =>
    let p := { p with
      digests := p.digests ++ [digest]
      skipped := p.skipped + (l.set.skipped features).length
      log := p.log.map (·.emitAll (skippedEntries features now l)) }
    match l.set.verify features with
    | .error panic => (.error (.panicked panic), p)
    | .ok results =>
      (.ok (), { p with
        results := p.results ++ results
        log := p.log.map (·.emitAll (resultEntries features now l results)) })

def verifySets (features : Features) (files : Files) (now : Instant) :
    List Loaded → Progress → Except RunFailure Unit × Progress
  | [], p => (.ok (), p)
  | l :: loaded, p =>
    match verifySet features files now l p with
    | (.ok (), p) => verifySets features files now loaded p
    | (.error e, p) => (.error e, p)

def Progress.report (features : Features) (now : Instant) (title : String) (p : Progress) :
    ConformanceReport :=
  { title, features := features.names, timestamp := now.text, fixtures := p.digests
    summary := .ofResults p.results p.skipped }

/-- The report on some loaded files, without a log. -/
def report (features : Features) (files : Files) (now : Instant) (title : String)
    (loaded : List Loaded) : Except RunFailure ConformanceReport :=
  match verifySets features files now loaded {} with
  | (.ok (), p) => .ok (p.report features now title)
  | (.error e, _) => .error e

end Printf.Conformance
