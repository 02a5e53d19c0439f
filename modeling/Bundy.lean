import Bundy.Nsas.HashTable
import Bundy.Nsas.Refinement
import Bundy.Nsas.Threads
import Bundy.Nsas.Linearizable
import Bundy.Nsas.ThreadsRefinement
import Bundy.Data.Element
import Bundy.Config.ConfigData
import Bundy.Config.Spec
import Bundy.Config.SpecPart
import Bundy.Config.ItemList
import Bundy.Config.FullConfig
import Bundy.Config.TrailingSlash
import Bundy.Dhcp4.Strtol
import Bundy.Dhcp4.Main
