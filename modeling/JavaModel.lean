import JavaModel.Session.Hierarchy
import JavaModel.Session.Members
import JavaModel.Session.Sources
import JavaModel.Proofs.Grammar.Telling
import JavaModel.Proofs.Session.Caching
import JavaModel.Proofs.Printing.Lines
import JavaModel.Proofs.Session.Resolving
import JavaModel.Proofs.Model.Contents
import JavaModel.Proofs.SourceSet.Filling
import JavaModel.Proofs.Session.Indifference
import JavaModel.Proofs.Model.Renaming
import JavaModel.Proofs.Library.Renaming
import JavaModel.Proofs.Session.Renaming
import JavaModel.Proofs.Session.Congruence
import JavaModel.Proofs.Session.Dialogue
import JavaModel.Proofs.Session.Regular
import JavaModel.Proofs.Session.Failure
import JavaModel.Proofs.Session.TreeLoading
import JavaModel.Proofs.Session.LoadOrder
import JavaModel.Proofs.Session.OnDemand
import JavaModel.Proofs.Session.Rising
import JavaModel.Proofs.Library.Naming
import JavaModel.Proofs.Session.Naming
import JavaModel.Proofs.Name
import JavaModel.Proofs.Grammar.Spelling
import JavaModel.Proofs.Model.Spelling
import JavaModel.Proofs.Session.Questions
import JavaModel.Proofs.Session.Spelling
import JavaModel.Proofs.FilePath
import JavaModel.Proofs.Model.Relocation
import JavaModel.Proofs.Library.Discovery
import JavaModel.Proofs.Session.Discovery
import JavaModel.Proofs.Token.Tiling
import JavaModel.Proofs.Grammar.Outermost
import JavaModel.Proofs.Grammar.Ending
import JavaModel.Proofs.Grammar.Indifference
import JavaModel.Proofs.Token.Separation
import JavaModel.Proofs.Resolution
import JavaModel.Proofs.Library.Misses
import JavaModel.Proofs.Session.Misses
import JavaModel.Proofs.Model.Addresses
import JavaModel.Proofs.Model.Numbering
import JavaModel.Proofs.Session.Unresolved
import JavaModel.Proofs.Session.Presence
import JavaModel.Proofs.Session.Later
import JavaModel.Proofs.Session.Navigation
import JavaModel.Proofs.Library.Overlooked
import JavaModel.Proofs.Session.Overlooked
import JavaModel.Proofs.Session.Closure
import JavaModel.Proofs.Token.Quoted
import JavaModel.Proofs.Grammar.RawParts
import JavaModel.Proofs.Model.Records
import JavaModel.Proofs.Printing.Initializers
import JavaModel.Proofs.Grammar.TypeAnnotations
import JavaModel.Proofs.Printing.NormalForm
import JavaModel.Proofs.Grammar.FieldDeclarators
import JavaModel.Proofs.Model.TypeVariables
import JavaModel.Proofs.Grammar.ErrorPlaces
import JavaModel.Proofs.Session.GenericValue
import JavaModel.Proofs.Session.Signatures
import JavaModel.Proofs.Session.Counting
import JavaModel.Proofs.DocText
import JavaModel.Proofs.Model.Packages
import JavaModel.Proofs.SourceSet.Width
