import YamlWeave.Session
import YamlWeave.Codec
import YamlWeave.Proofs.Loader.Termination
import YamlWeave.Proofs.Loader.Cycles
import YamlWeave.Proofs.Loader.Alone
import YamlWeave.Proofs.Loader.Inclusion
import YamlWeave.Proofs.Value.Document
import YamlWeave.Proofs.Value.TagFree
import YamlWeave.Proofs.Loader.Reached
import YamlWeave.Proofs.Loader.Tags
import YamlWeave.Proofs.Loader.Blame
import YamlWeave.Proofs.Session
import YamlWeave.Proofs.Loader.Visits
import YamlWeave.Proofs.Loader.Named
import YamlWeave.Proofs.Loader.Pasting
import YamlWeave.Proofs.Path
import YamlWeave.Proofs.World.Walk
import YamlWeave.Proofs.Loader.Spelling
import YamlWeave.Proofs.Loader.Anchored
import YamlWeave.Proofs.Include
import YamlWeave.Proofs.Value.MergeWalk
import YamlWeave.Proofs.Loader.MergeKeys
import YamlWeave.Proofs.Loader.Precedence
import YamlWeave.Proofs.Loader.Resolving
import YamlWeave.Proofs.Loader.Collapsing
import YamlWeave.Proofs.Codec
import YamlWeave.Proofs.Loader.Unreadable
import YamlWeave.Proofs.Options
import YamlWeave.Proofs.Loader.LeadsBack
import YamlWeave.Proofs.Resolve.WholeNumbers
