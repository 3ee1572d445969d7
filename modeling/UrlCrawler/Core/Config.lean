import Mathlib.Algebra.Order.Ring.Rat

/-! # The crawl configuration

`url_crawler/config.py`. What `__post_init__` refuses cannot be built: the checks are fields of
`CrawlConfig`, and `CrawlConfig.ofStored` is the one place that makes them, the way a worker makes
them when it rebuilds the configuration stored with a crawl.
-/
set_option autoImplicit false

namespace UrlCrawler

structure CrawlConfig where
  concurrency : ℤ := 10
  timeout : ℚ := 10
  maxPages : Option ℤ := none
  maxBytes : ℤ := 5000000
  requestBudget : ℚ := 60
  respectRobots : Bool := true
  maxSeedRedirects : ℤ := 5
  failureFuse : ℤ := 20
  userAgent : String := "url-crawler/0.2.0 (+https://github.com/jmbcs/url-crawler)"
  concurrency_pos : 1 ≤ concurrency := by decide
  timeout_pos : 0 < timeout := by decide
  maxPages_pos : ∀ m, maxPages = some m → 1 ≤ m := by decide
  maxBytes_pos : 1 ≤ maxBytes := by decide
  requestBudget_pos : 0 < requestBudget := by decide
  timeout_le_budget : timeout ≤ requestBudget := by decide
  maxSeedRedirects_nonneg : 0 ≤ maxSeedRedirects := by decide
  failureFuse_pos : 1 ≤ failureFuse := by decide

theorem CrawlConfig.uncapped_pos : ∀ m, (none : Option ℤ) = some m → 1 ≤ m := by
  intro m hm
  cases hm

/-- The same configuration without the cap. -/
def CrawlConfig.uncapped (config : CrawlConfig) : CrawlConfig :=
  { config with maxPages := none, maxPages_pos := CrawlConfig.uncapped_pos }

theorem CrawlConfig.capped_pos (m : ℤ) (h : 1 ≤ m) : ∀ max, some m = some max → 1 ≤ max := by
  intro max hmax
  obtain rfl := Option.some.inj hmax
  exact h

/-- The same configuration with a cap. -/
def CrawlConfig.capped (config : CrawlConfig) (m : ℤ) (h : 1 ≤ m) : CrawlConfig :=
  { config with maxPages := some m, maxPages_pos := CrawlConfig.capped_pos m h }

/-- The `config` column: the fields `CrawlCreate.to_config` writes, and the names of any other key
the object holds, which the dataclass takes as an unexpected keyword. -/
structure StoredConfig where
  concurrency : ℤ
  timeout : ℚ
  maxPages : Option ℤ
  maxBytes : ℤ
  respectRobots : Bool
  otherKeys : List String := []
deriving DecidableEq, Repr

/-- `CrawlConfig(**crawl.config)`: the configuration, or the exception as `run_job` records it.
`repr` prints a float. -/
def CrawlConfig.ofStored (repr : ℚ → String) (c : StoredConfig) : Except String CrawlConfig :=
  match c.otherKeys with
  | key :: _ => .error ("TypeError: CrawlConfig.__init__() got an unexpected keyword argument '" ++
      key ++ "'")
  | [] =>
    if hc : c.concurrency < 1 then
      .error ("ValueError: concurrency must be >= 1, got " ++ toString c.concurrency)
    else if ht : c.timeout ≤ 0 then
      .error ("ValueError: timeout must be > 0, got " ++ repr c.timeout)
    else if hp : ∃ m ∈ c.maxPages, m < 1 then
      .error ("ValueError: max_pages must be >= 1 when set, got " ++
        toString (c.maxPages.getD 0))
    else if hb : c.maxBytes < 1 then
      .error ("ValueError: max_bytes must be >= 1, got " ++ toString c.maxBytes)
    else if hr : 60 < c.timeout then
      .error ("ValueError: request_budget must be >= timeout " ++ repr c.timeout ++ ", got " ++
        repr 60)
    else .ok
      { concurrency := c.concurrency
        timeout := c.timeout
        maxPages := c.maxPages
        maxBytes := c.maxBytes
        respectRobots := c.respectRobots
        concurrency_pos := not_lt.mp hc
        timeout_pos := not_le.mp ht
        maxPages_pos := fun m hm => not_lt.mp fun h => hp ⟨m, hm, h⟩
        maxBytes_pos := not_lt.mp hb
        timeout_le_budget := not_lt.mp hr }

end UrlCrawler
