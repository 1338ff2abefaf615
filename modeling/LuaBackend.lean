import LuaBackend.Fixture.Case
import LuaBackend.Fixture.Output
import LuaBackend.Main
import LuaBackend.Proofs.AlikeTexts
import LuaBackend.Proofs.Blame
import LuaBackend.Proofs.BranchTexts
import LuaBackend.Proofs.Captures
import LuaBackend.Proofs.CodeParts
import LuaBackend.Proofs.Decoding
import LuaBackend.Proofs.DiscardedVariables
import LuaBackend.Proofs.FixtureCases
import LuaBackend.Proofs.GeneratedNames
import LuaBackend.Proofs.Increments
import LuaBackend.Proofs.Invocation
import LuaBackend.Proofs.LoopEmulation
import LuaBackend.Proofs.NameBinding
import LuaBackend.Proofs.NestedBranches
import LuaBackend.Proofs.NormalizedOutput
import LuaBackend.Proofs.PaddedScopes
import LuaBackend.Proofs.Positions
import LuaBackend.Proofs.PrefixExpressions
import LuaBackend.Proofs.ReadBack
import LuaBackend.Proofs.Restoration
import LuaBackend.Proofs.ScopeHistory
import LuaBackend.Proofs.SourceExcerpts
import LuaBackend.Proofs.StatementPrefixes
import LuaBackend.Proofs.StringLiterals
import LuaBackend.Proofs.SupportNames
import LuaBackend.Proofs.TableEntries
import LuaBackend.Script.Encode
import LuaBackend.Proofs.EmittedNames
